import TreeProjection.Proofs.Undoing

/-! # The regions of a finished tree

Of the regions that are opened, those that are not dropped become the nodes of the tree.  Which these are can be told
from the calls: passing a token changes nothing, opening a region adds one, closing one settles what it becomes, and
dropping one takes away that region and all that were opened after it.  The record says the same, entry by entry.

* `GreenBuilder.Region` — a region that has been opened: the token that was current then, and how it was closed.
* `BuilderCall.regions` — **the regions that calls leave**, in the order in which they were opened.
* `GreenBuilder.regions_eq_recorded` — they are those that the record holds.
* `GreenBuilder.exists_root` — a record that is accepted at the end is one region, and perhaps tokens after it. -/

namespace TreeProjection

namespace GreenBuilder

/-! ## Regions -/

/-- A region that has been opened. -/
structure Region where
  /-- Its number. -/
  marker : Nat
  /-- The token that was current when it was opened, if there was one. -/
  current : Option PlacedToken
  /-- How it has been closed, if it has been. -/
  closing : Option Closing
  deriving DecidableEq, Repr

namespace Region

/-- The region once the one with a number has been closed. -/
def close (marker : Nat) (closing : Closing) (r : Region) : Region :=
  if r.marker = marker then { r with closing := some closing } else r

/-- The message of a region that has been closed as an error element. -/
def message? (r : Region) : Option String :=
  match r.closing with
  | some (.error message) => some message
  | _ => none

end Region

end GreenBuilder

namespace BuilderCall

open GreenBuilder (Region)

/-- **What a call does to the regions** that are there, which are in the order in which they were opened. -/
def keep (b : GreenBuilder) (rs : List Region) : BuilderCall → List Region
  | advance => rs
  | mark => rs ++ [⟨b.mark.1, b.cursor.current?, none⟩]
  | done marker kind => rs.map (.close marker (.node kind))
  | error marker message => rs.map (.close marker (.error message))
  | rollback marker => rs.takeWhile (·.marker != marker)

/-- **The regions that calls leave**, until a call is refused, when some are there at first. -/
def regions (b : GreenBuilder) (rs : List Region) : List BuilderCall → List Region
  | [] => rs
  | call :: rest =>
      match call.run b with
      | .ok b' => regions b' (call.keep b rs) rest
      | .error _ => rs

end BuilderCall

namespace GreenBuilder

variable {b b' c : GreenBuilder} {marker n k : Nat} {closing : Closing} {call : BuilderCall}
  {calls : List BuilderCall} {tokens : Array PlacedToken} {es fs : List Event} {rs : List Region}
  {h : HostText} {l : Language}

/-! ## The regions of a record -/

/-- The regions of entries, the first of which stands at a place of the record. -/
def recorded (tokens : Array PlacedToken) (n : Nat) : List Event → List Region
  | [] => []
  | .opened position closing :: rest => ⟨n, tokens[position]?, closing⟩ :: recorded tokens (n + 1) rest
  | .token _ :: rest => recorded tokens (n + 1) rest
  | .closed :: rest => recorded tokens (n + 1) rest

/-- The regions of entries, and then of others. -/
theorem recorded_append : recorded tokens n (es ++ fs) =
    recorded tokens n es ++ recorded tokens (n + es.length) fs := by
  induction es generalizing n with
  | nil => rfl
  | cons e es ih => cases e <;> simp [recorded, ih, Nat.add_assoc, Nat.add_comm 1]

/-- Tokens are no regions. -/
theorem recorded_tokens (hes : ∀ e ∈ es, ∃ place, e = .token place) : recorded tokens n es = [] := by
  induction es generalizing n with
  | nil => rfl
  | cons e es ih =>
      obtain ⟨place, rfl⟩ := hes e List.mem_cons_self
      exact ih fun e he => hes e (List.mem_cons_of_mem _ he)

/-- The regions are known by places of the record. -/
theorem le_of_mem_recorded {r : Region} (hr : r ∈ recorded tokens n es) : n ≤ r.marker := by
  induction es generalizing n with
  | nil => cases hr
  | cons e es ih =>
      cases e with
      | opened position closing =>
          rcases List.mem_cons.mp hr with rfl | hr
          · exact Nat.le_refl _
          · exact Nat.le_of_succ_le (ih hr)
      | token place => exact Nat.le_of_succ_le (ih hr)
      | closed => exact Nat.le_of_succ_le (ih hr)

/-- Regions that come later in the record are not closed with one that comes before. -/
theorem map_close_recorded (hlt : marker < n) :
    (recorded tokens n es).map (.close marker closing) = recorded tokens n es := by
  have hsame : ∀ r ∈ recorded tokens n es, r.close marker closing = id r := by
    intro r hr
    have hle := le_of_mem_recorded hr
    exact if_neg (by omega)
  rw [List.map_congr_left hsame, List.map_id]

/-- **Recording how a region was closed** closes the region. -/
theorem recorded_recordClosing : recorded tokens n (recordClosing es.toArray k closing).toList =
    (recorded tokens n es).map (.close (n + k) closing) := by
  rw [recordClosing, Array.toList_modify]
  induction es generalizing n k with
  | nil => cases k <;> rfl
  | cons e es ih =>
      cases k with
      | zero =>
          -- the regions further on have other numbers
          have hlater : (recorded tokens (n + 1) es).map (.close n closing) = recorded tokens (n + 1) es :=
            map_close_recorded (Nat.lt_succ_self n)
          rw [List.modify_zero_cons, Nat.add_zero]
          cases e <;> simp [recorded, hlater, Region.close]
      | succ k =>
          have hrest := ih (n := n + 1) (k := k)
          rw [Nat.add_right_comm, Nat.add_assoc] at hrest
          rw [List.modify_succ_cons]
          cases e <;> simp [recorded, hrest, Region.close]

/-- **Cutting the record where a region was opened** leaves the regions before that one. -/
theorem recorded_take {position : Nat} {closing? : Option Closing}
    (hk : es[k]? = some (.opened position closing?)) :
    recorded tokens n (es.take k) = (recorded tokens n es).takeWhile (·.marker != n + k) := by
  induction es generalizing n k with
  | nil => cases hk
  | cons e es ih =>
      cases k with
      | zero =>
          cases hk
          simp [recorded]
      | succ k =>
          rw [List.getElem?_cons_succ] at hk
          have hrest := ih (n := n + 1) hk
          rw [Nat.add_right_comm, Nat.add_assoc] at hrest
          cases e <;> simp [recorded, hrest]

/-- The regions of a builder's record. -/
def recordedRegions (b : GreenBuilder) : List Region := recorded b.cursor.tokens 0 b.events.toList

/-- Closing a region closes it in the record. -/
theorem recordedRegions_close (hok : b.close marker closing = .ok b') :
    b'.recordedRegions = b.recordedRegions.map (.close marker closing) := by
  unfold close at hok
  split at hok
  · split at hok
    · cases hok
      have hclosed : recorded b.cursor.tokens 0 (recordClosing b.events.toList.toArray marker closing).toList =
          (recorded b.cursor.tokens 0 b.events.toList).map (.close (0 + marker) closing) := recorded_recordClosing
      rw [Nat.zero_add] at hclosed
      rw [recordedRegions, recordedRegions, Array.toList_push, recorded_append, ← hclosed]
      simp [recorded]
    · cases hok
  · cases hok

/-- Dropping a region takes it out of the record with all that were opened after it. -/
theorem recordedRegions_rollback (hok : b.rollback marker = .ok b') :
    b'.recordedRegions = b.recordedRegions.takeWhile (·.marker != marker) := by
  unfold rollback at hok
  split at hok
  · split at hok
    · rename_i hentry
      cases hok
      rw [← Array.getElem?_toList] at hentry
      have htake : recorded b.cursor.tokens 0 (b.events.toList.take marker) =
          (recorded b.cursor.tokens 0 b.events.toList).takeWhile (·.marker != 0 + marker) := recorded_take hentry
      rw [Nat.zero_add] at htake
      rw [recordedRegions, toList_take, htake, recordedRegions]
    · cases hok
  · cases hok

/-- **What a call does to the regions** it does to those of the record. -/
theorem keep_recordedRegions (hok : call.run b = .ok b') :
    call.keep b b.recordedRegions = b'.recordedRegions := by
  cases call with
  | advance =>
      cases hok
      show _ = recordedRegions b.advance
      unfold advance
      -- a token is recorded, which is no region, or nothing is, at the end of the input
      split
      · simp [BuilderCall.keep, recordedRegions, recorded_append, recorded, HostCursor.next]
      · rfl
  | mark =>
      cases hok
      show _ = recordedRegions b.mark.2
      simp [BuilderCall.keep, recordedRegions, recorded_append, recorded, mark, position, HostCursor.current?]
  | done marker kind => exact (recordedRegions_close hok).symm
  | error marker message => exact (recordedRegions_close hok).symm
  | rollback marker => exact (recordedRegions_rollback hok).symm

/-- What calls leave of the regions of the record are those of the record afterwards. -/
theorem regions_recordedRegions (hok : BuilderCall.runAll b calls = .ok c) :
    BuilderCall.regions b b.recordedRegions calls = c.recordedRegions := by
  induction calls generalizing b with
  | nil =>
      cases hok
      rfl
  | cons call rest ih =>
      obtain ⟨b', hcall, hrest⟩ := BuilderCall.runAll_cons hok
      rw [BuilderCall.regions, hcall, keep_recordedRegions hcall]
      exact ih hrest

/-! ## The root -/

/-- Tokens that are put in where no region is open. -/
theorem foldl_add_outside (ts : List HostToken) (outside : List GreenTree) (m : Nat) (ms : List String) :
    ts.foldl (fun (a : Assembly) t => a.add (.token t)) ⟨[], outside, m, ms⟩ =
      ⟨[], (ts.map GreenTree.token).reverse ++ outside, m, ms⟩ := by
  induction ts generalizing outside with
  | nil => rfl
  | cons t ts ih =>
      rw [List.foldl_cons, Assembly.add, ih]
      simp

/-- A token that is passed where no region is open is put in with those before it. -/
theorem assemble_token_outside (hb : b.Over h l) (place m : Nat) (outside : List GreenTree)
    (ms : List String) : b.assemble ⟨[], outside, m, ms⟩ (.token place) =
      .ok ⟨[], (((h.tokens.take (place + 1)).drop m).map GreenTree.token).reverse ++ outside,
        max m (place + 1), ms⟩ := by
  have htokens : (h.tokens.toArray.extract m (place + 1)).toList = (h.tokens.take (place + 1)).drop m := by
    rw [Array.toList_extract, List.extract_eq_take_drop, List.drop_take]
  simp only [assemble, Assembly.emitUntil, hb.tokens, ← Array.foldl_toList, htokens, foldl_add_outside]

/-- **Entries assemble elements one after the other** where no region is open: what they put in comes after what was
there, with one node for each region. -/
def Appends (b : GreenBuilder) (es : List Event) : Prop :=
  ∀ (m : Nat) (outside : List GreenTree) (ms : List String), ∃ more m' ms',
    es.foldlM b.assemble ⟨[], outside, m, ms⟩ = .ok ⟨[], more ++ outside, m', ms'⟩ ∧
      more.countP GreenTree.isNode = regionsAt 0 es

/-- A token, and then other entries. -/
theorem Appends.token (hb : b.Over h l) {place : Nat} (hes : b.Appends es) : b.Appends (.token place :: es) := by
  intro m outside ms
  let passed := (((h.tokens.take (place + 1)).drop m).map GreenTree.token).reverse
  obtain ⟨more, m', ms', hfold, hcount⟩ := hes (max m (place + 1)) (passed ++ outside) ms
  have hnone : passed.countP GreenTree.isNode = 0 := by
    rw [List.countP_reverse, List.countP_map]
    exact List.countP_eq_zero.mpr fun _ _ => Bool.false_ne_true
  refine ⟨more ++ passed, m', ms', ?_, ?_⟩
  · rw [List.foldlM_cons, assemble_token_outside hb, List.append_assoc]
    exact hfold
  · rw [List.countP_append, hnone, hcount]
    rfl

/-- A region, and then other entries. -/
theorem Appends.region (hb : b.Over h l) (closing : Closing) (parts : List Outline) (i : Nat)
    (hes : b.Appends es) :
    b.Appends (.opened i (some closing) :: (Outline.eventsOf (h.placeAt l) i parts ++ [.closed]) ++ es) := by
  intro m outside ms
  obtain ⟨t, m₁, ms₁, ht, hregion⟩ : ∃ t m₁ ms₁, t.isNode = true ∧
      (.opened i (some closing) :: (Outline.eventsOf (h.placeAt l) i parts ++ [.closed])).foldlM b.assemble
        ⟨[], outside, m, ms⟩ = .ok ⟨[], t :: outside, m₁, ms₁⟩ :=
    ⟨_, _, _, rfl, foldlM_outer hb closing parts i m outside ms⟩
  obtain ⟨more, m', ms', hfold, hcount⟩ := hes m₁ (t :: outside) ms₁
  refine ⟨more ++ [t], m', ms', ?_, ?_⟩
  · rw [List.foldlM_append, hregion, List.append_assoc]
    exact hfold
  · rw [List.countP_append, hcount, regionsAt_region _ _ closing, List.countP_singleton, if_pos ht]

/-- **The record of outlines** assembles them one after the other. -/
theorem appends_eventsOf (hb : b.Over h l) : ∀ (os : List Outline) (i : Nat),
    b.Appends (Outline.eventsOf (h.placeAt l) i os)
  | [], _ => fun m _ ms => ⟨[], m, ms, rfl, rfl⟩
  | .token _ :: rest, _ => (appends_eventsOf hb rest _).token hb
  | .node kind parts :: rest, i => (appends_eventsOf hb rest _).region hb (.node kind) parts i
  | .error message parts :: rest, i => (appends_eventsOf hb rest _).region hb (.error message) parts i

/-- **A record that is one region at the root** of the tree that it becomes, with perhaps tokens after the region. -/
structure Rooted (h : HostText) (l : Language) (es : List Event) (tree : HostTree) (closing : Closing)
    (parts : List Outline) : Prop where
  /-- The record. -/
  events : ∃ more, es = .opened 0 (some closing) :: (Outline.eventsOf (h.placeAt l) 0 parts ++ [.closed]) ++ more ∧
    ∀ e ∈ more, ∃ place, e = .token place
  /-- The region passes the tokens in order. -/
  inOrder : Outline.InOrder 0 (Outline.tokensOf parts)
  /-- There are as many tokens as it passes. -/
  room : (Outline.tokensOf parts).length ≤ (h.significant l).length
  /-- The tree. -/
  green : tree.green = .node closing.kind (PlacedTree.greens ((Outline.laidAll h l 0 0 parts).1 ++
    h.stretch (Outline.laidAll h l 0 0 parts).2 h.tokens.length))
  /-- Its error elements. -/
  errors : tree.errors = ((tree.green.errorSpans 0).zip (closing.messages (Outline.messagesOf parts))).map
    fun e => ⟨e.1, e.2⟩

/-- **What calls have recorded** when no region is open is the record of outlines. -/
theorem exists_outlines (hcalls : BuilderCall.runAll (ofText h l) calls = .ok b) (hclosed : b.openMarkers = []) :
    ∃ os, b.Over h l ∧ b.events.toList = Outline.eventsOf (h.placeAt l) 0 os ∧
      Outline.InOrder 0 (Outline.tokensOf os) ∧ (Outline.tokensOf os).length ≤ (h.significant l).length := by
  have hover : (ofText h l).Over h l := ⟨rfl, rfl⟩
  have hfresh : Layered (ofText h l) (ofText h l) := .flat [] (.nil (Nat.zero_le _))
  obtain ⟨os, hfilled⟩ := (hfresh.runAll rfl hcalls).filled_of_closed hclosed
  have hgrown := hfilled.grown
  have hroom := hfilled.room
  refine ⟨os, ?_, ?_, hfilled.inOrder, ?_⟩
  · rw [hgrown]
    exact ⟨rfl, rfl⟩
  · rw [hgrown, ← hover.placeAt_eq]
    simp [grown, ofText, position, HostCursor.ofText]
  · simpa [ofText, significantCount, position, HostCursor.ofText] using hroom

/-- A tree is handed over if no region is open, and a single node has been assembled. -/
theorem finish_eq_ok {tree : HostTree} (hfinish : b.finish = .ok tree) :
    b.openMarkers = [] ∧ ∃ a, b.events.toList.foldlM b.assemble {} = .ok a ∧ a.outside = [tree.green] ∧
      tree.green.isNode = true ∧
      tree.errors = ((tree.green.errorSpans 0).zip a.messages.reverse).map fun e => ⟨e.1, e.2⟩ := by
  unfold finish at hfinish
  split at hfinish
  case isFalse => cases hfinish
  case isTrue hopen =>
    obtain ⟨a, hfold, hroot⟩ := BuilderCall.exists_of_bind hfinish
    rw [Array.foldlM_toList]
    refine ⟨List.isEmpty_iff.mp hopen, a, hfold, ?_⟩
    split at hroot
    case h_1 kind children houtside =>
      cases hroot
      exact ⟨houtside, rfl, rfl⟩
    case h_2 => cases hroot

/-- **The regions that calls leave**, if a tree is handed over in the end, are those of the record. -/
theorem regions_eq_recorded {tree : HostTree} (hcalls : BuilderCall.runAll (ofText h l) calls = .ok b)
    (hfinish : b.finish = .ok tree) :
    BuilderCall.regions (ofText h l) [] calls = recorded (h.significant l).toArray 0 b.events.toList := by
  obtain ⟨os, hb, -⟩ := exists_outlines hcalls (finish_eq_ok hfinish).1
  rw [← hb.cursor]
  exact regions_recordedRegions hcalls

/-- **Where a single node is assembled, no token comes first**: it would have been put in before the node. -/
theorem head?_ne_token (hb : b.Over h l) {a : Assembly} {t : GreenTree} :
    ∀ {os : List Outline}, (Outline.tokensOf os).length ≤ (h.significant l).length →
      (Outline.eventsOf (h.placeAt l) 0 os).foldlM b.assemble {} = .ok a → a.outside = [t] → t.isNode = true →
      ∀ place, (Outline.eventsOf (h.placeAt l) 0 os).head? ≠ some (.token place)
  | [], _, _, _, _, _ => nofun
  | .node kind parts :: rest, _, _, _, _, _ => nofun
  | .error message parts :: rest, _, _, _, _, _ => nofun
  | .token first :: rest, hroom, hfold, houtside, ht, place => by
      exfalso
      have hlt : 0 < (h.significant l).length := Nat.lt_of_lt_of_le (Nat.succ_pos _) hroom
      have hplace := (HostText.fits_placeAt_succ hlt).le
      let passed := ((h.tokens.take (h.placeAt l 0 + 1)).map GreenTree.token).reverse
      obtain ⟨more, m, ms, hmore, -⟩ := appends_eventsOf hb rest 1 (max 0 (h.placeAt l 0 + 1)) passed []
      have hall : (Outline.eventsOf (h.placeAt l) 0 (.token first :: rest)).foldlM b.assemble {} =
          .ok ⟨[], more ++ passed, m, ms⟩ := by
        rw [Outline.eventsOf, Outline.events, List.singleton_append, List.foldlM_cons,
          assemble_token_outside hb, List.append_nil, List.drop_zero]
        exact hmore
      obtain rfl := Except.ok.inj (hall.symm.trans hfold)
      -- the last element that is outside is a token
      have hmem : t ∈ passed := by
        rcases List.append_eq_singleton_iff.mp houtside with ⟨-, hpassed⟩ | ⟨-, hpassed⟩
        · rw [hpassed]
          exact List.mem_singleton_self t
        · have hlen := congrArg List.length hpassed
          simp only [passed, List.length_reverse, List.length_map, List.length_take, List.length_nil] at hlen
          omega
      obtain ⟨u, -, rfl⟩ := List.mem_map.mp (List.mem_reverse.mp hmem)
      cases ht

/-- **A record that is accepted at the end is one region**, and perhaps tokens after it. -/
theorem exists_root {tree : HostTree} (hcalls : BuilderCall.runAll (ofText h l) calls = .ok b)
    (hfinish : b.finish = .ok tree) : ∃ closing parts, Rooted h l b.events.toList tree closing parts := by
  obtain ⟨hclosed, a, hfold, houtside, hnode, herrors⟩ := finish_eq_ok hfinish
  obtain ⟨os, hb, hevents, hin, hroom⟩ := exists_outlines hcalls hclosed
  rw [hevents] at hfold ⊢
  -- one node has been assembled, so that there is one region
  have hone : regionsAt 0 (Outline.eventsOf (h.placeAt l) 0 os) = 1 := by
    obtain ⟨more, m, ms, hmore, hcount⟩ := appends_eventsOf hb os 0 0 [] []
    obtain rfl := Except.ok.inj (hmore.symm.trans hfold)
    have hmore : more = [tree.green] := by simpa using houtside
    rw [← hcount, hmore, List.countP_singleton, if_pos hnode]
  have hfirst := head?_ne_token hb hroom hfold houtside hnode
  obtain ⟨closing, parts, more, hregion, ⟨rest, htokens⟩, hmore⟩ := exists_region (h.placeAt l) 0 hone hfirst
  rw [htokens, Outline.inOrder_append] at hin
  rw [htokens, List.length_append] at hroom
  -- after the region nothing is left to be put in
  obtain ⟨m, hrest⟩ := foldlM_tokens hb [.node closing.kind (PlacedTree.greens
      ((Outline.laidAll h l 0 0 parts).1 ++
        h.stretch (Outline.laidAll h l 0 0 parts).2 h.tokens.length))]
    ((Outline.messagesOf parts).reverse ++ closing.messages []) hmore
    (Nat.le_max_right (Outline.laidAll h l 0 0 parts).2 h.tokens.length)
  have hassembled := hfold
  rw [hregion, List.foldlM_append, foldlM_outer hb closing parts] at hassembled
  obtain rfl := Except.ok.inj (hrest.symm.trans hassembled)
  have hmessages : ((Outline.messagesOf parts).reverse ++ closing.messages []).reverse =
      closing.messages (Outline.messagesOf parts) := by
    cases closing <;> simp [Closing.messages]
  refine ⟨closing, parts, ⟨more, hregion, hmore⟩, hin.1, by omega, ?_, ?_⟩
  · exact (List.singleton_inj.mp houtside).symm
  · rw [herrors, hmessages]

end GreenBuilder

end TreeProjection
