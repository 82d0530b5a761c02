import TreeProjection.Proofs.Building
import TreeProjection.Sample.Parse

/-! # Any calls of the green builder

A host may call its builder in any order, open regions and drop them again.  Whatever the calls, a builder that
has answered all of them is in **layers**: some outlines have been carried out, then a region was opened and is open
still, then more outlines have been carried out inside it, and so on.  Closing a region makes one outline of a layer,
and a rollback takes layers off.

* `BuilderCall` — the calls that change a builder, in any order.
* `GreenBuilder.Layered` — a builder in layers; `GreenBuilder.Layered.run` — every call keeps it so.
* `GreenBuilder.topRegions` — how many regions a record has side by side.
* `GreenBuilder.finish_lossless` — whatever was called, the tree holds the tokens of the source. -/

namespace TreeProjection

/-! ## Calls -/

/-- A call that changes a builder. -/
inductive BuilderCall where
  /-- Pass the current token. -/
  | advance
  /-- Open a region. -/
  | mark
  /-- Close a region as a node. -/
  | done (marker : Nat) (kind : Kind)
  /-- Close a region as an error element. -/
  | error (marker : Nat) (message : String)
  /-- Drop a region and everything after its mark. -/
  | rollback (marker : Nat)
  deriving DecidableEq, Repr

namespace BuilderCall

variable {β τ : Type} [TreeBuilder β τ]

/-- Make a call. -/
def run (b : β) : BuilderCall → Except Violation β
  | advance => .ok (TreeBuilder.advance b)
  | mark => .ok (TreeBuilder.mark b).2
  | done marker kind => TreeBuilder.done b marker kind
  | error marker message => TreeBuilder.error b marker message
  | rollback marker => TreeBuilder.rollback b marker

/-- Make several calls, one after the other, until one is refused. -/
def runAll (b : β) (calls : List BuilderCall) : Except Violation β := calls.foldlM run b

end BuilderCall

namespace GreenBuilder

variable {b b₀ b₁ b' : GreenBuilder} {o : Outline} {os : List Outline} {es : List Event} {n : Nat}

/-! ## Layers -/

/-- **Outlines have been carried out**, and each of their tokens was there. -/
structure Filled (os : List Outline) (b b' : GreenBuilder) : Prop where
  /-- They lead from the first builder to the second. -/
  builds : Outline.builds os b = .ok b'
  /-- There are as many tokens as they pass. -/
  room : b.position + (Outline.tokensOf os).length ≤ b.significantCount
  /-- They pass the tokens in order. -/
  inOrder : Outline.InOrder b.position (Outline.tokensOf os)

namespace Filled

/-- What carrying outlines out adds. -/
theorem grown (h : Filled os b b') :
    b' = b.grown (Outline.eventsOf b.placeAt b.position os) (Outline.tokensOf os).length :=
  Outline.builds_grown h.builds h.room

/-- Nothing has been carried out. -/
theorem nil (hroom : b.position ≤ b.significantCount) : Filled [] b b := ⟨rfl, hroom, rfl⟩

/-- The tokens that have been passed were there. -/
theorem position_le (h : Filled os b b') : b'.position ≤ b'.significantCount := by
  rw [h.grown]
  exact h.room

/-- One outline more has been carried out. -/
theorem snoc {b'' : GreenBuilder} (h : Filled os b b') (h' : Filled [o] b' b'') :
    Filled (os ++ [o]) b b'' where
  builds := by rw [Outline.builds_append h.builds, h'.builds]
  room := by
    have hroom := h'.room
    rw [h.grown, position_grown, significantCount_grown] at hroom
    rw [Outline.tokensOf_append, List.length_append]
    omega
  inOrder := by
    have hin := h'.inOrder
    rw [h.grown, position_grown] at hin
    rw [Outline.tokensOf_append, Outline.inOrder_append]
    exact ⟨h.inOrder, hin⟩

/-- A region has been closed around outlines. -/
theorem close {closing : Closing} (h : Filled os b.mark.2 b')
    (hclose : Outline.build o b = b'.close b.mark.1 closing)
    (htokens : o.tokens = Outline.tokensOf os) {b'' : GreenBuilder}
    (hok : b'.close b.mark.1 closing = .ok b'') : Filled [o] b b'' where
  builds := by rw [Outline.builds_singleton, hclose, hok]
  room := by
    rw [Outline.tokensOf, Outline.tokensOf, List.append_nil, htokens]
    exact h.room
  inOrder := by
    rw [Outline.tokensOf, Outline.tokensOf, List.append_nil, htokens]
    exact h.inOrder

/-- Passing a token is carrying out an outline, unless there is none left. -/
theorem advance (b : GreenBuilder) : b.advance = b ∨ ∃ o, Filled [o] b b.advance := by
  rcases Nat.lt_or_ge b.position b.significantCount with hlt | hge
  · refine .inr ⟨.token { (default : Token) with index := some b.position }, rfl, ?_, rfl⟩
    exact hlt
  · have hnone : b.cursor.current? = none := Array.getElem?_eq_none hge
    refine .inl ?_
    rw [GreenBuilder.advance, hnone]

end Filled

/-- **A builder in layers**: outlines have been carried out, inside of the regions that are open. -/
inductive Layered (b₀ : GreenBuilder) : GreenBuilder → Prop where
  /-- No region has been opened that is still open. -/
  | flat {b : GreenBuilder} (os : List Outline) (filled : Filled os b₀ b) : Layered b₀ b
  /-- Outlines have been carried out inside of the region that was opened last. -/
  | inside {b₁ b : GreenBuilder} (below : Layered b₀ b₁) (os : List Outline)
    (filled : Filled os b₁.mark.2 b) : Layered b₀ b

namespace Layered

/-- The tokens that have been passed were there. -/
theorem position_le (h : Layered b₀ b) : b.position ≤ b.significantCount := by
  cases h with
  | flat os filled => exact filled.position_le
  | inside below os filled => exact filled.position_le

/-- One outline more has been carried out in the innermost layer. -/
theorem snoc (h : Layered b₀ b) (h' : Filled [o] b b') : Layered b₀ b' := by
  cases h with
  | flat os filled => exact .flat _ (filled.snoc h')
  | inside below os filled => exact .inside below _ (filled.snoc h')

/-- Open regions are known by places of the record. -/
theorem lt_size_of_mem (hopen : b₀.openMarkers = []) (h : Layered b₀ b) {marker : Nat}
    (hmem : marker ∈ b.openMarkers) : marker < b.events.size := by
  induction h with
  | flat os filled =>
      rw [filled.grown] at hmem
      simp [GreenBuilder.grown, hopen] at hmem
  | @inside b₁ b below os filled ih =>
      rw [filled.grown] at hmem ⊢
      simp only [GreenBuilder.grown, GreenBuilder.mark, List.mem_cons] at hmem
      simp only [GreenBuilder.grown, GreenBuilder.mark, Array.size_append, Array.size_push]
      rcases hmem with rfl | hmem
      · omega
      · have := ih hmem
        omega

end Layered

/-- **Dropping the innermost region** takes the builder back to where the region was opened. -/
theorem rollback_grown_innermost (b : GreenBuilder) (es : List Event) (n : Nat) :
    (b.mark.2.grown es n).rollback b.mark.1 = .ok b := by
  have hevent : (b.events.push (.opened b.position none) ++ es.toArray)[b.events.size]? =
      some (.opened b.position none) := by
    rw [Array.getElem?_append_left (by simp), Array.getElem?_push_size]
  simp only [rollback, mark, grown, hevent]
  simp [position]

/-- **Dropping a region further out** takes the innermost one with it. -/
theorem rollback_grown_of_mem {marker : Nat} (hmem : marker ∈ b.openMarkers)
    (hlt : marker < b.events.size) : (b.mark.2.grown es n).rollback marker = b.rollback marker := by
  have hne : b.events.size ≠ marker := by omega
  have hevent : (b.events.push (.opened b.position none) ++ es.toArray)[marker]? =
      b.events[marker]? := by
    rw [Array.getElem?_append_left (by simp; omega), Array.getElem?_push_lt hlt,
      Array.getElem?_eq_getElem hlt]
  have htake : (b.events.push (.opened b.position none) ++ es.toArray).take marker =
      b.events.take marker := by
    apply Array.ext'
    simp only [Array.take_eq_extract, Array.toList_extract, List.extract_eq_take_drop,
      List.drop_zero, Array.toList_append, Array.toList_push, List.append_assoc]
    exact List.take_append_of_le_length (Nat.le_of_lt (by simpa using hlt))
  simp only [rollback, mark, grown, hevent, htake]
  simp [hmem, hne]

namespace Layered

/-- A rollback takes layers off. -/
theorem rollback (hopen : b₀.openMarkers = []) (h : Layered b₀ b) {marker : Nat}
    (hok : b.rollback marker = .ok b') : Layered b₀ b' := by
  induction h with
  | flat os filled =>
      rw [filled.grown] at hok
      simp [GreenBuilder.rollback, GreenBuilder.grown, hopen] at hok
  | @inside b₁ b below os filled ih =>
      rw [filled.grown] at hok
      by_cases hmarker : marker = b₁.mark.1
      · rw [hmarker, rollback_grown_innermost] at hok
        cases hok
        exact below
      · by_cases hmem : marker ∈ b₁.openMarkers
        -- the region is one of the layers below, which the rollback finds as they were
        · rw [rollback_grown_of_mem hmem (below.lt_size_of_mem hopen hmem)] at hok
          exact ih hok
        · have hnot : (b₁.mark.1 :: b₁.openMarkers).contains marker = false := by
            simpa [hmem] using hmarker
          have hnot : (b₁.mark.2.grown (Outline.eventsOf b₁.mark.2.placeAt b₁.mark.2.position os)
              (Outline.tokensOf os).length).openMarkers.contains marker = false := hnot
          rw [GreenBuilder.rollback, hnot] at hok
          cases hok

/-- Closing a region makes one outline of the innermost layer. -/
theorem close (hopen : b₀.openMarkers = []) (h : Layered b₀ b) {marker : Nat} {closing : Closing}
    (hok : b.close marker closing = .ok b') : Layered b₀ b' := by
  cases h with
  | flat os filled =>
      rw [filled.grown] at hok
      simp [GreenBuilder.close, GreenBuilder.grown, hopen] at hok
  | @inside b₁ _ below os filled =>
      -- only the innermost region can be closed, and that is the one of the top layer
      have hmarkers : b.openMarkers = b₁.mark.1 :: b₁.openMarkers := by
        rw [filled.grown]
        rfl
      have hmarker : marker = b₁.mark.1 := by
        by_contra hne
        rw [GreenBuilder.close, hmarkers] at hok
        simp only [if_neg (Ne.symm hne)] at hok
        cases hok
      rw [hmarker] at hok
      have hbuilds : Outline.builds os (TreeBuilder.mark b₁).2 = .ok b := filled.builds
      cases closing with
      | node kind =>
          refine below.snoc (filled.close (o := .node kind os) ?_ rfl hok)
          simp only [Outline.build, bind, Except.bind, hbuilds]
          rfl
      | error message =>
          refine below.snoc (filled.close (o := .error message os) ?_ rfl hok)
          simp only [Outline.build, bind, Except.bind, hbuilds]
          rfl

/-- **Every call keeps a builder in layers.** -/
theorem run (hopen : b₀.openMarkers = []) (h : Layered b₀ b) {call : BuilderCall}
    (hok : call.run b = .ok b') : Layered b₀ b' := by
  cases call with
  | advance =>
      cases hok
      rcases Filled.advance b with hsame | ⟨o, hfilled⟩
      · have hsame : TreeBuilder.advance b = b := hsame
        rwa [hsame]
      · exact h.snoc hfilled
  | mark =>
      cases hok
      exact .inside h [] (.nil h.position_le)
  | done marker kind => exact h.close hopen hok
  | error marker message => exact h.close hopen hok
  | rollback marker => exact h.rollback hopen hok

/-- **Whatever is called**, a builder that has answered all calls is in layers. -/
theorem runAll (hopen : b₀.openMarkers = []) {calls : List BuilderCall} (h : Layered b₀ b)
    (hok : BuilderCall.runAll b calls = .ok b') : Layered b₀ b' := by
  induction calls generalizing b with
  | nil =>
      cases hok
      exact h
  | cons call rest ih =>
      simp only [BuilderCall.runAll, List.foldlM_cons, bind, Except.bind] at hok
      cases hcall : call.run b with
      | error v =>
          rw [hcall] at hok
          cases hok
      | ok b₁ =>
          rw [hcall] at hok
          exact ih (h.run hopen hcall) hok

/-- Where no region is open, there is one layer. -/
theorem filled_of_closed (h : Layered b₀ b) (hclosed : b.openMarkers = []) :
    ∃ os, Filled os b₀ b := by
  cases h with
  | flat os filled => exact ⟨os, filled⟩
  | inside below os filled =>
      rw [filled.grown] at hclosed
      cases hclosed

end Layered

/-! ## Regions side by side -/

/-- How many regions are opened where no other one is open, when `depth` regions are open at first. -/
def regionsAt : (depth : Nat) → List Event → Nat
  | _, [] => 0
  | 0, .opened _ _ :: rest => regionsAt 1 rest + 1
  | depth + 1, .opened _ _ :: rest => regionsAt (depth + 2) rest
  | depth, .token _ :: rest => regionsAt depth rest
  | depth, .closed :: rest => regionsAt (depth - 1) rest

/-- **How many regions a record has side by side**, those inside of others aside. -/
def topRegions (b : GreenBuilder) : Nat := regionsAt 0 b.events.toList

mutual

/-- Inside of a region the record of an outline has no regions to count. -/
theorem regionsAt_events_inside (place : Nat → Nat) (depth : Nat) :
    ∀ (o : Outline) (i : Nat) (es : List Event),
      regionsAt (depth + 1) (o.events place i ++ es) = regionsAt (depth + 1) es
  | .token t, i, es => rfl
  | .node kind parts, i, es => by
      rw [Outline.events, List.cons_append, List.append_assoc, regionsAt,
        regionsAt_eventsOf_inside place (depth + 1) parts]
      rfl
  | .error message parts, i, es => by
      rw [Outline.events, List.cons_append, List.append_assoc, regionsAt,
        regionsAt_eventsOf_inside place (depth + 1) parts]
      rfl

/-- Inside of a region the record of several outlines has no regions to count. -/
theorem regionsAt_eventsOf_inside (place : Nat → Nat) (depth : Nat) :
    ∀ (os : List Outline) (i : Nat) (es : List Event),
      regionsAt (depth + 1) (Outline.eventsOf place i os ++ es) = regionsAt (depth + 1) es
  | [], i, es => rfl
  | o :: rest, i, es => by
      rw [Outline.eventsOf, List.append_assoc, regionsAt_events_inside place depth o,
        regionsAt_eventsOf_inside place depth rest]

end

/-- The record of a region counts as one. -/
theorem regionsAt_region (place : Nat → Nat) (i : Nat) (closing : Closing) (os : List Outline)
    (es : List Event) : regionsAt 0 (.opened i (some closing) ::
      (Outline.eventsOf place i os ++ [.closed]) ++ es) = regionsAt 0 es + 1 := by
  rw [List.cons_append, List.append_assoc, regionsAt, regionsAt_eventsOf_inside place 0 os]
  rfl

/-- **Where a record has no region, it has tokens alone.** -/
theorem eventsOf_of_no_region (place : Nat → Nat) : ∀ (os : List Outline) (i : Nat),
    regionsAt 0 (Outline.eventsOf place i os) = 0 →
      ∀ e ∈ Outline.eventsOf place i os, ∃ j, e = .token j
  | [], i, _ => nofun
  | .token t :: rest, i, h => by
      intro e he
      rcases List.mem_cons.mp he with rfl | he
      · exact ⟨place i, rfl⟩
      · exact eventsOf_of_no_region place rest (i + 1) h e he
  -- a region would count
  | .node kind parts :: rest, i, h => by
      rw [Outline.eventsOf, Outline.events, regionsAt_region place i (.node kind) parts] at h
      cases h
  | .error message parts :: rest, i, h => by
      rw [Outline.eventsOf, Outline.events, regionsAt_region place i (.error message) parts] at h
      cases h

/-- **A record with one region, which comes first**: after the region there are tokens alone. -/
theorem exists_region (place : Nat → Nat) (i : Nat) (hone : regionsAt 0 (Outline.eventsOf place i os) = 1)
    (hfirst : ∀ j, (Outline.eventsOf place i os).head? ≠ some (.token j)) :
    ∃ closing parts more, Outline.eventsOf place i os =
        .opened i (some closing) :: (Outline.eventsOf place i parts ++ [.closed]) ++ more ∧
      (∃ rest, Outline.tokensOf os = Outline.tokensOf parts ++ rest) ∧
      ∀ e ∈ more, ∃ j, e = .token j := by
  match os with
  | [] => cases hone
  | .token t :: rest => exact absurd rfl (hfirst (place i))
  | .node kind parts :: rest =>
      rw [Outline.eventsOf, Outline.events, regionsAt_region place i (.node kind) parts] at hone
      refine ⟨.node kind, parts, _, rfl, ⟨_, rfl⟩, ?_⟩
      exact eventsOf_of_no_region place rest _ (Nat.succ.inj hone)
  | .error message parts :: rest =>
      rw [Outline.eventsOf, Outline.events, regionsAt_region place i (.error message) parts] at hone
      refine ⟨.error message, parts, _, rfl, ⟨_, rfl⟩, ?_⟩
      exact eventsOf_of_no_region place rest _ (Nat.succ.inj hone)

/-! ## The finished tree -/

variable {h : HostText} {l : Language}

/-- **Once all tokens are in the tree, nothing is put in any more.** -/
theorem foldlM_tokens (hb : b.Over h l) (outside : List GreenTree) (messages : List String) :
    ∀ {es : List Event} {m : Nat}, (∀ e ∈ es, ∃ j, e = .token j) → h.tokens.length ≤ m →
      ∃ m', es.foldlM b.assemble ⟨[], outside, m, messages⟩ = .ok ⟨[], outside, m', messages⟩
  | [], m, _, _ => ⟨m, rfl⟩
  | e :: es, m, htokens, hm => by
      obtain ⟨j, rfl⟩ := htokens e List.mem_cons_self
      have hempty : h.tokens.toArray.extract m (j + 1) = #[] := by
        rw [Array.extract_eq_empty_iff]
        simp only [List.size_toArray]
        omega
      have hsame : b.assemble ⟨[], outside, m, messages⟩ (.token j) =
          .ok ⟨[], outside, max m (j + 1), messages⟩ := by
        simp only [assemble, Assembly.emitUntil, hb.tokens, hempty]
        rfl
      rw [List.foldlM_cons, hsame]
      exact foldlM_tokens hb outside messages (fun e he => htokens e (List.mem_cons_of_mem _ he)) (by omega)

/-- **What is assembled from a record with one region, which comes first**: a node over all tokens of the source. -/
theorem foldlM_one_region (hb : b.Over h l) (hin : Outline.InOrder 0 (Outline.tokensOf os))
    (hroom : (Outline.tokensOf os).length ≤ (h.significant l).length)
    (hone : regionsAt 0 (Outline.eventsOf (h.placeAt l) 0 os) = 1)
    (hfirst : ∀ j, (Outline.eventsOf (h.placeAt l) 0 os).head? ≠ some (.token j)) :
    ∃ kind children m messages, (Outline.eventsOf (h.placeAt l) 0 os).foldlM b.assemble {} =
      .ok ⟨[], [.node kind children], m, messages⟩ ∧ GreenTree.tokensOf children = h.tokens := by
  obtain ⟨closing, parts, more, hregion, ⟨rest, htokens⟩, hmore⟩ :=
    exists_region (h.placeAt l) 0 hone hfirst
  -- what is inside of the region passes some of the tokens, in order
  rw [htokens, Outline.inOrder_append] at hin
  rw [htokens, List.length_append] at hroom
  have hlaid := Outline.laidAll_laid (h := h) (l := l) parts 0 0 ⟨Nat.zero_le _, by simp⟩ hin.1
    (by omega)
  -- and after the region nothing is left to be put in
  obtain ⟨m, hrest⟩ := foldlM_tokens hb [.node closing.kind (PlacedTree.greens
      ((Outline.laidAll h l 0 0 parts).1 ++
        h.stretch (Outline.laidAll h l 0 0 parts).2 h.tokens.length))]
    ((Outline.messagesOf parts).reverse ++ closing.messages []) hmore
    (Nat.le_max_right (Outline.laidAll h l 0 0 parts).2 h.tokens.length)
  have htree : GreenTree.tokensOf (PlacedTree.greens ((Outline.laidAll h l 0 0 parts).1 ++
      h.stretch (Outline.laidAll h l 0 0 parts).2 h.tokens.length)) = h.tokens := by
    rw [PlacedTree.tokensOf_greens, tokensOf_root hlaid, HostText.placed,
      HostText.map_toHostToken_placeFrom]
  rw [hregion, List.foldlM_append, foldlM_outer hb closing parts 0 0 [] []]
  exact ⟨_, _, m, _, hrest, htree⟩

/-- **The host builder is lossless.** Whatever calls have been made of a fresh builder: if it has answered them all,
no region is left open, and its record is one region with no token before it, then it hands over a tree, and the tokens
of the tree are the tokens of the source, each once and in order. -/
theorem finish_lossless {calls : List BuilderCall}
    (hcalls : BuilderCall.runAll (ofText h l) calls = .ok b) (hclosed : b.openMarkers = [])
    (hone : b.topRegions = 1) (hfirst : ∀ place, b.events[0]? ≠ some (.token place)) :
    ∃ tree, b.finish = .ok tree ∧ tree.green.tokens = h.tokens ∧
      tree.green.text ++ h.rest = h.source := by
  have hover : (ofText h l).Over h l := ⟨rfl, rfl⟩
  have hfresh : Layered (ofText h l) (ofText h l) := .flat [] (.nil (Nat.zero_le _))
  -- What the calls have recorded is filled in by outlines, as no region is left open.
  obtain ⟨os, hfilled⟩ := (hfresh.runAll rfl hcalls).filled_of_closed hclosed
  have hgrown := hfilled.grown
  have hb : b.Over h l := by
    rw [hgrown]
    exact ⟨rfl, rfl⟩
  have hevents : b.events.toList = Outline.eventsOf (h.placeAt l) 0 os := by
    rw [hgrown, ← hover.placeAt_eq]
    simp [GreenBuilder.grown, ofText, position, HostCursor.ofText]
  have hroom : (Outline.tokensOf os).length ≤ (h.significant l).length := by
    have hroom := hfilled.room
    simpa [ofText, significantCount, position, HostCursor.ofText] using hroom
  have hhead : ∀ j, (Outline.eventsOf (h.placeAt l) 0 os).head? ≠ some (.token j) := by
    intro j hj
    rw [← hevents, List.head?_eq_getElem?, Array.getElem?_toList] at hj
    exact hfirst j hj
  -- The first event is no token, so that the one region holds the whole record.
  rw [topRegions, hevents] at hone
  obtain ⟨kind, children, m, messages, hfold, htokens⟩ :=
    foldlM_one_region hb hfilled.inOrder hroom hone hhead
  rw [← hevents, Array.foldlM_toList] at hfold
  have hfinish : ∃ errors, b.finish = .ok ⟨.node kind children, errors⟩ := by
    unfold finish
    rw [hclosed, hfold]
    exact ⟨_, rfl⟩
  obtain ⟨errors, hfinish⟩ := hfinish
  have htokens : (GreenTree.node kind children).tokens = h.tokens := htokens
  refine ⟨_, hfinish, htokens, ?_⟩
  rw [GreenTree.text, htokens, HostText.source]

/-- A source with trivia on all sides, a region that is dropped, an error element, and a region at the end of the
input that holds nothing. -/
theorem finish_lossless_calls : ∃ b tree,
    BuilderCall.runAll (ofText (Sample.cut " x = // \n 1 ; ") Sample.language)
      [.mark, .mark, .advance, .mark, .advance, .rollback 3, .error 1 "missing", .advance, .advance,
        .advance, .advance, .mark, .done 7 .file, .done 0 .file, .advance] = .ok b ∧
    b.finish = .ok tree ∧
    tree.green.tokens = (Sample.cut " x = // \n 1 ; ").tokens ∧
    tree.green.text ++ (Sample.cut " x = // \n 1 ; ").rest = (Sample.cut " x = // \n 1 ; ").source := by
  have hrun : ∃ b, BuilderCall.runAll (ofText (Sample.cut " x = // \n 1 ; ") Sample.language)
      [.mark, .mark, .advance, .mark, .advance, .rollback 3, .error 1 "missing", .advance, .advance,
        .advance, .advance, .mark, .done 7 .file, .done 0 .file, .advance] = .ok b ∧
      b.openMarkers = [] ∧ b.topRegions = 1 ∧ b.events[0]? = some (.opened 0 (some (.node .file))) := by
    decide +kernel
  obtain ⟨b, hb, hclosed, hone, hfirst⟩ := hrun
  obtain ⟨tree, htree⟩ := finish_lossless hb hclosed hone fun place hplace => by
    rw [hfirst] at hplace
    cases hplace
  exact ⟨b, tree, hb, htree⟩

end GreenBuilder

end TreeProjection
