import Mathlib.Data.List.TakeWhile
import TreeProjection.Proofs.Discarding

/-! # What a rollback restores

A rollback cuts the record where a region was opened, and takes the reader back to the position that the opening entry
holds.  Closing a region writes into such an entry, which may stand far back.  While a region is open, however, what
has been recorded before it is out of reach: a call that names no region that was open already can only close and drop
regions that were opened later.  So the builder **outgrows** what it was, and a rollback undoes all of it.

* `BuilderCall.marker?` — the region that a call names.
* `GreenBuilder.Outgrows` — a builder that has been added to, and in which nothing has been touched;
  `GreenBuilder.Outgrows.run` — by one call; `GreenBuilder.Outgrows.runAll` — by any calls.
* `GreenBuilder.rollback_undoes` — dropping a region leads back to the builder in which it was opened. -/

namespace TreeProjection

namespace BuilderCall

/-- The region that a call closes or drops. -/
def marker? : BuilderCall → Option Nat
  | done marker _ | error marker _ | rollback marker => some marker
  | advance | mark => none

end BuilderCall

namespace GreenBuilder

variable {b b₀ b' c : GreenBuilder} {marker : Nat} {closing : Closing} {call : BuilderCall}
  {calls : List BuilderCall} {h : HostText} {l : Language}

/-! ## Builders that have been added to -/

/-- **A builder outgrows another one**: it has all that the other one has, and more regions may have been opened and
more entries recorded since. -/
structure Outgrows (b₀ b : GreenBuilder) : Prop where
  /-- The tokens are the same. -/
  tokens : b.tokens = b₀.tokens
  /-- The reader reads the same source. -/
  cursor : { b.cursor with position := b₀.position } = b₀.cursor
  /-- The record has been added to. -/
  events : b₀.events.toList <+: b.events.toList
  /-- The regions that were open are open, and the others have been opened later. -/
  openMarkers : ∃ since, b.openMarkers = since ++ b₀.openMarkers ∧ ∀ marker ∈ since, b₀.events.size ≤ marker

/-- A closing that is recorded further back than an entry leaves the record before that entry alone. -/
theorem prefix_recordClosing {before events : Array Event} (hbefore : before.toList <+: events.toList)
    (hle : before.size ≤ marker) : before.toList <+: (recordClosing events marker closing).toList := by
  obtain ⟨more, hmore⟩ := hbefore
  obtain ⟨k, rfl⟩ := Nat.exists_eq_add_of_le hle
  rw [recordClosing, Array.toList_modify, ← hmore, ← Array.length_toList, List.modify, Nat.add_comm _ k,
    Nat.add_comm k, List.modifyTailIdx_add]
  exact List.prefix_append _ _

/-- **What a rollback leaves**: the record up to where the region was opened, and the regions that were open then.  The
reader reads on in the same source. -/
theorem exists_of_rollback (hok : b.rollback marker = .ok b') :
    ∃ position, b' = { b with events := b.events.take marker
                              openMarkers := (b.openMarkers.dropWhile (· != marker)).tail
                              cursor := { b.cursor with position } } := by
  unfold rollback at hok
  split at hok
  · split at hok
    · cases hok
      exact ⟨_, rfl⟩
    · cases hok
  · cases hok

/-- The record that a rollback leaves. -/
theorem toList_take (events : Array Event) (n : Nat) : (events.take n).toList = events.toList.take n := by
  rw [Array.take_eq_extract, Array.toList_extract, List.extract_eq_take_drop, List.drop_zero, Nat.sub_zero]

/-- Dropping the open regions down to one of the first of them leaves the rest of the first and all of the others. -/
theorem tail_dropWhile_append {since before : List Nat} (hmem : marker ∈ since) :
    ((since ++ before).dropWhile (· != marker)).tail = (since.dropWhile (· != marker)).tail ++ before := by
  have hne : since.dropWhile (· != marker) ≠ [] := by
    rw [Ne, List.dropWhile_eq_nil_iff]
    exact fun hall => by simpa using hall marker hmem
  rw [List.dropWhile_append, if_neg (by simpa using hne), List.tail_append_of_ne_nil hne]

namespace Outgrows

/-- Nothing has been added. -/
theorem refl (b : GreenBuilder) : b.Outgrows b := ⟨rfl, rfl, List.prefix_rfl, [], rfl, nofun⟩

/-- There are as many entries as before at least. -/
theorem size_le (hb : b₀.Outgrows b) : b₀.events.size ≤ b.events.size := by
  simpa using hb.events.length_le

/-- A token is passed. -/
theorem advance (hb : b₀.Outgrows b) : b₀.Outgrows b.advance := by
  unfold GreenBuilder.advance
  split
  · refine ⟨hb.tokens, hb.cursor, ?_, hb.openMarkers⟩
    rw [Array.toList_push]
    exact List.prefix_append_of_prefix hb.events
  · exact hb

/-- A region is opened. -/
theorem mark (hb : b₀.Outgrows b) : b₀.Outgrows b.mark.2 where
  tokens := hb.tokens
  cursor := hb.cursor
  events := by
    show _ <+: (b.events.push _).toList
    rw [Array.toList_push]
    exact List.prefix_append_of_prefix hb.events
  openMarkers := by
    obtain ⟨since, hopen, hsince⟩ := hb.openMarkers
    refine ⟨b.events.size :: since, congrArg (b.events.size :: ·) hopen, ?_⟩
    intro m hm
    rcases List.mem_cons.mp hm with rfl | hm
    · exact hb.size_le
    · exact hsince m hm

/-- A region that was not open at first is closed. -/
theorem close (hb : b₀.Outgrows b) (hmarker : marker ∉ b₀.openMarkers)
    (hok : b.close marker closing = .ok b') : b₀.Outgrows b' := by
  obtain ⟨since, hopen, hsince⟩ := hb.openMarkers
  unfold GreenBuilder.close at hok
  split at hok
  case h_1 m rest hmarkers =>
      split at hok
      case isTrue hm =>
          cases hok
          subst hm
          rw [hmarkers] at hopen
          cases since with
          -- the innermost open region would be one of those that were open at first
          | nil =>
              rw [List.nil_append] at hopen
              exact absurd (hopen ▸ List.mem_cons_self) hmarker
          | cons m since =>
              obtain ⟨rfl, hrest⟩ := List.cons.inj hopen
              -- what is changed in the record lies beyond what was there at first
              have hentries : b₀.events.toList <+: (recordClosing b.events m closing).toList :=
                prefix_recordClosing hb.events (hsince _ List.mem_cons_self)
              refine ⟨hb.tokens, hb.cursor, ?_, since, hrest, fun m hm => hsince m (List.mem_cons_of_mem _ hm)⟩
              rw [Array.toList_push]
              exact List.prefix_append_of_prefix hentries
      case isFalse => cases hok
  case h_2 => cases hok

/-- A region that was not open at first is dropped. -/
theorem rollback (hb : b₀.Outgrows b) (hmarker : marker ∉ b₀.openMarkers)
    (hok : b.rollback marker = .ok b') : b₀.Outgrows b' := by
  obtain ⟨since, hopen, hsince⟩ := hb.openMarkers
  obtain ⟨hmem, -, -⟩ := rollback_eq_ok hok
  obtain ⟨position, rfl⟩ := exists_of_rollback hok
  have hmem : marker ∈ since := by
    rw [hopen, List.mem_append] at hmem
    exact hmem.resolve_right hmarker
  refine ⟨hb.tokens, hb.cursor, ?_, (since.dropWhile (· != marker)).tail, ?_, fun m hm => ?_⟩
  · rw [toList_take, List.prefix_take_iff, Array.length_toList]
    exact ⟨hb.events, hsince marker hmem⟩
  · rw [hopen, tail_dropWhile_append hmem]
  · exact hsince m ((List.dropWhile_sublist _).mem (List.mem_of_mem_tail hm))

/-- **A call that names no region that was open at first** adds to the builder. -/
theorem run (hb : b₀.Outgrows b) (hmarker : ∀ marker ∈ call.marker?, marker ∉ b₀.openMarkers)
    (hok : call.run b = .ok b') : b₀.Outgrows b' := by
  cases call with
  | advance =>
      cases hok
      exact hb.advance
  | mark =>
      cases hok
      exact hb.mark
  | done marker kind => exact hb.close (hmarker marker rfl) hok
  | error marker message => exact hb.close (hmarker marker rfl) hok
  | rollback marker => exact hb.rollback (hmarker marker rfl) hok

/-- **Calls that name no region that was open at first** add to the builder. -/
theorem runAll (hb : b₀.Outgrows b) (hmarkers : ∀ call ∈ calls, ∀ marker ∈ call.marker?, marker ∉ b₀.openMarkers)
    (hok : BuilderCall.runAll b calls = .ok c) : b₀.Outgrows c := by
  induction calls generalizing b with
  | nil =>
      cases hok
      exact hb
  | cons call rest ih =>
      obtain ⟨b', hcall, hrest⟩ := BuilderCall.runAll_cons hok
      have hb' := hb.run (hmarkers call List.mem_cons_self) hcall
      exact ih hb' (fun call hcall => hmarkers call (List.mem_cons_of_mem _ hcall)) hrest

end Outgrows

/-! ## Dropping a region -/

namespace Outgrows

/-- A region that has been opened is still open. -/
theorem mem_openMarkers (hb : b.mark.2.Outgrows c) : b.mark.1 ∈ c.openMarkers := by
  obtain ⟨since, hopen, -⟩ := hb.openMarkers
  rw [hopen]
  exact List.mem_append_right _ List.mem_cons_self

/-- **A rollback undoes what has been added** since the region was opened, its opening entry included. -/
theorem rollback_mark (hb : b.mark.2.Outgrows c) : c.rollback b.mark.1 = .ok b := by
  obtain ⟨more, hmore⟩ := hb.events
  obtain ⟨since, hopen, hsince⟩ := hb.openMarkers
  have hevents : c.events.toList = b.events.toList ++ .opened b.position none :: more := by
    rw [← hmore]
    simp [GreenBuilder.mark]
  have hentry : c.events[b.mark.1]? = some (.opened b.position none) := by
    rw [← Array.getElem?_toList, hevents]
    simp [GreenBuilder.mark]
  have htake : c.events.take b.mark.1 = b.events := by
    apply Array.ext'
    rw [toList_take, hevents]
    exact List.take_left' rfl
  -- the regions that were opened later have higher numbers, and the others are further out
  have hopen : c.openMarkers = since ++ b.mark.1 :: b.openMarkers := hopen
  have hlater : ∀ m ∈ since, (m != b.mark.1) = true := by
    intro m hm
    have hle : b.events.size + 1 ≤ m := (Array.size_push _).symm.trans_le (hsince m hm)
    simp only [GreenBuilder.mark, bne_iff_ne]
    omega
  have hleft : (c.openMarkers.dropWhile (· != b.mark.1)).tail = b.openMarkers := by
    rw [hopen, List.dropWhile_append_of_pos hlater]
    simp
  have hcursor : { c.cursor with position := b.position } = b.cursor := hb.cursor
  have htokens : c.tokens = b.tokens := hb.tokens
  rw [GreenBuilder.rollback, if_pos (List.contains_iff_mem.mpr hb.mem_openMarkers), hentry]
  simp only [htake, hleft, hcursor, htokens]

end Outgrows

/-- **A rollback is an exact undo.**  A region is opened, and then tokens are passed and regions opened, closed and
dropped, none of them one that was open already.  Then the region is still open, and dropping it leads back to the
builder in which it was opened: whatever is called afterwards gets the same numbers and the same answer, and ends with
the same tree. -/
theorem rollback_undoes (hok : BuilderCall.runAll b.mark.2 calls = .ok c)
    (hsince : ∀ call ∈ calls, ∀ marker ∈ call.marker?, marker ∉ b.mark.2.openMarkers) :
    b.mark.1 ∈ c.openMarkers ∧ c.rollback b.mark.1 = .ok b ∧
      ∀ after,
        BuilderCall.numbers c (.rollback b.mark.1 :: after) = BuilderCall.numbers b after ∧
        BuilderCall.runAll c (.rollback b.mark.1 :: after) = BuilderCall.runAll b after ∧
        (BuilderCall.runAll c (.rollback b.mark.1 :: after) >>= finish) =
          (BuilderCall.runAll b after >>= finish) := by
  have hgrown := (Outgrows.refl b.mark.2).runAll hsince hok
  have hrollback := hgrown.rollback_mark
  have hrun : (BuilderCall.rollback b.mark.1).run c = .ok b := hrollback
  refine ⟨hgrown.mem_openMarkers, hrollback, fun after => ?_⟩
  have hall : BuilderCall.runAll c (.rollback b.mark.1 :: after) = BuilderCall.runAll b after := by
    rw [BuilderCall.runAll, List.foldlM_cons, hrun]
    rfl
  exact ⟨BuilderCall.numbers_cons hrun, hall, by rw [hall]⟩

/-- A region is opened behind one that is closed and inside of one that is open.  In it a token is passed, a region is
closed as an error element, one is dropped with another one in it, and one is left open. -/
theorem rollback_undoes_calls : ∃ b c,
    BuilderCall.runAll (ofText (Sample.cut "x = 1 ;") Sample.language)
      [.mark, .mark, .advance, .done 1 .file] = .ok b ∧
    BuilderCall.runAll b.mark.2
      [.advance, .mark, .advance, .error 6 "late", .mark, .mark, .advance, .rollback 9, .mark] = .ok c ∧
    b.mark.1 = 4 ∧ c.openMarkers = [9, 4, 0] ∧ c.position = 3 ∧ c.rollback 4 = .ok b := by
  have hrun : (do
      let b ← BuilderCall.runAll (ofText (Sample.cut "x = 1 ;") Sample.language)
        [.mark, .mark, .advance, .done 1 .file]
      let c ← BuilderCall.runAll b.mark.2
        [.advance, .mark, .advance, .error 6 "late", .mark, .mark, .advance, .rollback 9, .mark]
      return (b.mark.1, b.mark.2.openMarkers, c.openMarkers, c.position)) =
      .ok (4, [4, 0], [9, 4, 0], 3) := by decide +kernel
  obtain ⟨b, hbefore, hrun⟩ := BuilderCall.exists_of_bind hrun
  obtain ⟨c, hok, hrun⟩ := BuilderCall.exists_of_bind hrun
  simp only [pure, Except.pure, Except.ok.injEq, Prod.mk.injEq] at hrun
  obtain ⟨hmarker, hopen, hleft, hposition⟩ := hrun
  have hundo := rollback_undoes hok (by rw [hopen]; decide)
  rw [hmarker] at hundo
  exact ⟨b, c, hbefore, hok, hmarker, hleft, hposition, hundo.2.1⟩

end GreenBuilder

end TreeProjection
