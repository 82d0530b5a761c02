import Mathlib.Logic.Function.Iterate
import TreeProjection.Host.Feed
import TreeProjection.Host.Green
import TreeProjection.Host.Recording
import TreeProjection.Proofs.Reading

/-! # Hosts as sources

Both builders read through a `HostCursor`, and what the recognizer gets from them depends on the cursor alone:
the tokens that are not trivia, in order, and then the end.

* `CursorBuilder` — a builder that reads through a cursor.
* `HostCursor.tape` — what a cursor gives.
* `Supervised.feeds` — a builder gives what its cursor does, unless its run is called off. -/

namespace TreeProjection

/-! ## Types of host tokens -/

/-- The token type of a kind is never the end of the input. -/
theorem ElementTypes.tokenTypeOf?_ne_eof (e : ElementTypes) (kind : Kind) :
    e.tokenTypeOf? kind ≠ some .eof := by
  unfold tokenTypeOf? element?
  intro h
  split at h
  case h_1 ty hty =>
    cases h
    split at hty
    · cases hty
    · split at hty
      · cases hty
      · split at hty
        · rename_i h0 h1 _
          have hkind : kind - tokensStart = 0xFFFF := by
            have := ElementType.token.inj (Option.some.inj hty)
            exact congrArg TokenType.code this
          -- only the kind of a whole file would give the number of the end
          have hfile : kind = 1 := by
            have := congrArg (· + tokensStart) hkind
            simp only [tokensStart, UInt16.sub_add_cancel] at this
            exact this
          exact h1 hfile
        · split at hty <;> cases hty
  case h_2 => cases h

/-- The type of a host token as the recognizer sees it. -/
def ElementTypes.typeOf (e : ElementTypes) (kind : Kind) : TokenType :=
  (e.tokenTypeOf? kind).getD .invalid

theorem ElementTypes.typeOf_ne_eof (e : ElementTypes) (kind : Kind) : e.typeOf kind ≠ .eof := by
  unfold typeOf
  cases h : e.tokenTypeOf? kind with
  | none => decide
  | some ty =>
      rintro rfl
      exact e.tokenTypeOf?_ne_eof kind h

/-- A host token as the recognizer sees it. -/
def ElementTypes.read (e : ElementTypes) (t : PlacedToken) : Token :=
  .ofSpan (e.typeOf t.kind) t.text t.span

/-! ## Cursors -/

namespace HostCursor

/-- **What a cursor gives**: its tokens, and then the end of the source. -/
def tape (e : ElementTypes) (c : HostCursor) : Tape where
  body := c.tokens.toList.map e.read
  last := .endOfInput c.length
  body_inner := by
    intro t ht
    obtain ⟨u, -, rfl⟩ := List.mem_map.mp ht
    simp [Token.isEof, TokenType.isEof, ElementTypes.read, Token.ofSpan, e.typeOf_ne_eof]
  last_isEof := rfl

@[simp] theorem size_tape (e : ElementTypes) (c : HostCursor) :
    (c.tape e).size = c.tokens.size := by
  simp [tape, Tape.size]

/-- A cursor gives no hidden tokens. -/
theorem plain_tape (e : ElementTypes) (c : HostCursor) : (c.tape e).Plain := by
  intro t ht
  obtain ⟨u, -, rfl⟩ := List.mem_map.mp ht
  rfl

/-- The cursor after the current token; at the end it stays. -/
def pass (c : HostCursor) : HostCursor := if c.current?.isSome then c.next else c

/-- Before the end, passing a token moves on. -/
theorem pass_of_lt {c : HostCursor} (h : c.position < c.tokens.size) : c.pass = c.next := by
  have hcurrent : c.current? = some c.tokens[c.position] := Array.getElem?_eq_getElem h
  rw [pass, hcurrent]
  rfl

/-- At the end there is nothing to pass. -/
theorem pass_of_le {c : HostCursor} (h : c.tokens.size ≤ c.position) : c.pass = c := by
  have hcurrent : c.current? = none := Array.getElem?_eq_none h
  rw [pass, hcurrent]
  rfl

/-- Wherever a cursor is put, it does not matter how many tokens it has passed before. -/
theorem moved_iterate_pass (c : HostCursor) (n i : Nat) :
    { pass^[n] c with position := i } = { c with position := i } := by
  induction n with
  | zero => rfl
  | succ n ih =>
      rw [Function.iterate_succ_apply', ← ih]
      rcases Nat.lt_or_ge (pass^[n] c).position (pass^[n] c).tokens.size with h | h
      · rw [pass_of_lt h]
        rfl
      · rw [pass_of_le h]

/-- The token at a place of what a cursor gives. -/
theorem token_tape (e : ElementTypes) (c : HostCursor) {i : Nat} {t : PlacedToken}
    (h : c.tokens[i]? = some t) : (c.tape e).token i = { e.read t with index := some i } := by
  have hi : i < c.tokens.size := (Array.getElem?_eq_some_iff.mp h).1
  have hall : (c.tape e).all[i]? = some (e.read t) := by
    have ht : c.tokens[i] = t := (Array.getElem?_eq_some_iff.mp h).2
    simp [Tape.all, tape, List.getElem?_append, hi, ht]
  simp only [Tape.token, hall, Option.getD_some, size_tape, Nat.min_eq_left (Nat.le_of_lt hi)]

end HostCursor

/-! ## Builders that read through a cursor -/

/-- **A builder that reads through a cursor.** -/
class CursorBuilder (β : Type) {τ : outParam Type} [TreeBuilder β τ] where
  /-- The cursor. -/
  cursor : β → HostCursor
  /-- The kind of the current token is the cursor's. -/
  kind?_eq (b : β) : TreeBuilder.kind? b = (cursor b).kind?
  /-- The text of the current token is the cursor's. -/
  text_eq (b : β) : TreeBuilder.text b = (cursor b).text
  /-- The offset of the current token is the cursor's. -/
  offset_eq (b : β) : TreeBuilder.offset b = (cursor b).offset
  /-- The end is the cursor's. -/
  atEnd_eq (b : β) : TreeBuilder.atEnd b = (cursor b).atEnd
  /-- As many tokens are still to come as the cursor tells. -/
  remaining_eq (b : β) : TreeBuilder.remaining b = (cursor b).remaining
  /-- Passing a token moves the cursor. -/
  cursor_advance (b : β) : cursor (TreeBuilder.advance b) = (cursor b).pass
  /-- Opening a region leaves the cursor where it is. -/
  cursor_mark (b : β) : cursor (TreeBuilder.mark b).2 = cursor b
  /-- So does closing one as a node. -/
  cursor_done {b b' : β} {marker : Nat} {kind : Kind}
    (h : TreeBuilder.done b marker kind = .ok b') : cursor b' = cursor b
  /-- And so does closing one as an error element. -/
  cursor_error {b b' : β} {marker : Nat} {message : String}
    (h : TreeBuilder.error b marker message = .ok b') : cursor b' = cursor b
  /-- A rollback takes the cursor back to where the region was opened. -/
  cursor_rollback {b b' : β} {n : Nat} (h : TreeBuilder.rollback
    (TreeBuilder.advance^[n] (TreeBuilder.mark b).2) (TreeBuilder.mark b).1 = .ok b') :
      cursor b' = cursor b

namespace GreenBuilder

/-- Closing a region leaves the reader where it is. -/
theorem cursor_close {b b' : GreenBuilder} {marker : Nat} {closing : Closing}
    (h : b.close marker closing = .ok b') : b'.cursor = b.cursor := by
  unfold close at h
  split at h
  · split at h
    · cases h
      rfl
    · cases h
  · cases h

/-- What passing tokens does to a builder. -/
theorem exists_iterate_advance (b : GreenBuilder) (n : Nat) : ∃ more,
    advance^[n] b = { b with events := b.events ++ more, cursor := HostCursor.pass^[n] b.cursor } := by
  induction n with
  | zero => exact ⟨#[], by simp⟩
  | succ n ih =>
      obtain ⟨more, ih⟩ := ih
      rw [Function.iterate_succ_apply', Function.iterate_succ_apply', ih]
      simp only [advance, HostCursor.pass]
      cases (HostCursor.pass^[n] b.cursor).current? with
      | none => exact ⟨more, by simp⟩
      | some t => exact ⟨more.push (.token t.place), by simp⟩

/-- **A rollback undoes everything** since its region was opened. -/
theorem rollback_iterate_advance (b : GreenBuilder) (n : Nat) :
    (advance^[n] b.mark.2).rollback b.mark.1 = .ok b := by
  obtain ⟨more, hmore⟩ := exists_iterate_advance b.mark.2 n
  have hevent : (b.events.push (.opened b.position none) ++ more)[b.events.size]? =
      some (.opened b.position none) := by
    rw [Array.getElem?_append_left (by simp), Array.getElem?_push_size]
  rw [hmore]
  simp only [rollback, mark, hevent]
  simp [position, HostCursor.moved_iterate_pass]

instance : CursorBuilder GreenBuilder where
  cursor := GreenBuilder.cursor
  kind?_eq _ := rfl
  text_eq _ := rfl
  offset_eq _ := rfl
  atEnd_eq _ := rfl
  remaining_eq _ := rfl
  cursor_advance b := by
    change (advance b).cursor = b.cursor.pass
    unfold advance HostCursor.pass
    cases b.cursor.current? <;> rfl
  cursor_mark _ := rfl
  cursor_done h := cursor_close h
  cursor_error h := cursor_close h
  cursor_rollback {b _ n} h := by
    have hback := (rollback_iterate_advance b n).symm.trans h
    cases hback
    rfl

end GreenBuilder

namespace RecordingBuilder

/-- Closing a region leaves the reader where it is. -/
theorem cursor_close {b b' : RecordingBuilder} {marker : Nat} {call : Call}
    (h : b.close marker call = .ok b') : b'.cursor = b.cursor := by
  unfold close at h
  split at h
  · split at h
    · cases h
      rfl
    · cases h
  · cases h

/-- What passing tokens does to a builder. -/
theorem exists_iterate_advance (b : RecordingBuilder) (n : Nat) : ∃ more,
    advance^[n] b = { b with calls := b.calls ++ more, cursor := HostCursor.pass^[n] b.cursor } := by
  induction n with
  | zero => exact ⟨#[], by simp⟩
  | succ n ih =>
      obtain ⟨more, ih⟩ := ih
      rw [Function.iterate_succ_apply', Function.iterate_succ_apply', ih]
      simp only [advance, HostCursor.pass]
      cases (HostCursor.pass^[n] b.cursor).current? with
      | none => exact ⟨more, by simp⟩
      | some t => exact ⟨more.push (.advance t.text), by simp⟩

/-- **A rollback undoes everything** since its region was opened, but the number of the region is used up. -/
theorem rollback_iterate_advance (b : RecordingBuilder) (n : Nat) :
    (advance^[n] b.mark.2).rollback b.mark.1 = .ok { b with nextMarker := b.nextMarker + 1 } := by
  obtain ⟨more, hmore⟩ := exists_iterate_advance b.mark.2 n
  rw [hmore]
  simp [rollback, mark, HostCursor.moved_iterate_pass]

instance : CursorBuilder RecordingBuilder where
  cursor := RecordingBuilder.cursor
  kind?_eq _ := rfl
  text_eq _ := rfl
  offset_eq _ := rfl
  atEnd_eq _ := rfl
  remaining_eq _ := rfl
  cursor_advance b := by
    change (advance b).cursor = b.cursor.pass
    unfold advance HostCursor.pass
    cases b.cursor.current? <;> rfl
  cursor_mark _ := rfl
  cursor_done h := cursor_close h
  cursor_error h := cursor_close h
  cursor_rollback {b _ n} h := by
    have hback := (rollback_iterate_advance b n).symm.trans h
    cases hback
    rfl

end RecordingBuilder

namespace Supervised

variable {β τ : Type} [TreeBuilder β τ] [CursorBuilder β]

/-- The cursor of a supervised builder. -/
def cursor (s : Supervised β) : HostCursor := CursorBuilder.cursor s.builder

/-- **What a pull gives**, in terms of the cursor. -/
theorem pull_eq (s : Supervised β) : TokenSource.pull s =
    if s.cancelled then (.error .cancelled, s)
    else match s.cursor.current? with
      | none => (.ok (.endOfInput s.cursor.length), s.exhausted)
      | some t => (.ok (s.elements.read t), s.advance) := by
  change pull s = _
  unfold pull
  simp only [CursorBuilder.kind?_eq, CursorBuilder.text_eq, CursorBuilder.offset_eq]
  cases hcurrent : s.cursor.current? with
  | none =>
      have hcurrent : (CursorBuilder.cursor s.builder).current? = none := hcurrent
      simp only [HostCursor.kind?, HostCursor.offset, hcurrent, Option.map_none, Option.getD_none]
      rfl
  | some t =>
      have hcurrent : (CursorBuilder.cursor s.builder).current? = some t := hcurrent
      simp only [HostCursor.kind?, HostCursor.offset, HostCursor.text, hcurrent, Option.map_some,
        Option.getD_some]
      rfl

/-- Opening a region leaves the cursor where it is. -/
theorem cursor_mark (s : Supervised β) : s.mark.2.cursor = s.cursor :=
  CursorBuilder.cursor_mark s.builder

/-- Opening a region leaves as many tokens to come. -/
theorem remaining_mark (s : Supervised β) :
    TreeBuilder.remaining s.mark.2.builder = TreeBuilder.remaining s.builder := by
  rw [CursorBuilder.remaining_eq, CursorBuilder.remaining_eq]
  exact congrArg HostCursor.remaining s.cursor_mark

/-- Passing a token moves the cursor and keeps the kinds. -/
theorem cursor_advance (s : Supervised β) : s.advance.cursor = s.cursor.pass :=
  CursorBuilder.cursor_advance s.builder

/-- **A builder gives what its cursor does**, unless its run is called off. -/
theorem feeds (s : Supervised β) :
    Feeds ((s.cursor.tape s.elements).all.drop s.cursor.position) s := by
  -- as long as tokens are left, each pull passes one of them
  generalize hn : s.cursor.tokens.size - s.cursor.position = n
  have hbound : TokenSource.bound s = s.cursor.tokens.size - s.cursor.position :=
    CursorBuilder.remaining_eq s.builder
  induction n generalizing s with
  | zero =>
      have hnone : s.cursor.current? = none := by
        rw [HostCursor.current?, Array.getElem?_eq_none_iff]
        omega
      have hdrop : (s.cursor.tape s.elements).all.drop s.cursor.position = [] ∨
          (s.cursor.tape s.elements).all.drop s.cursor.position =
            [.endOfInput s.cursor.length] := by
        rcases Nat.eq_or_lt_of_le (Nat.le_of_sub_eq_zero hn) with heq | hlt
        · right
          have hlength : s.cursor.position =
              (s.cursor.tokens.toList.map s.elements.read).length := by simp [heq]
          simp [Tape.all, HostCursor.tape, hlength]
        · left
          rw [List.drop_eq_nil_iff, Tape.length_all, HostCursor.size_tape]
          omega
      rcases hdrop with hdrop | hdrop
      · rw [hdrop]
        trivial
      · rw [hdrop]
        refine ⟨Nat.zero_le _, fun a next hpull => ⟨?_, trivial⟩⟩
        rw [pull_eq, hnone] at hpull
        split at hpull
        · cases hpull
        · cases hpull
          rfl
  | succ n ih =>
      have hlt : s.cursor.position < s.cursor.tokens.size := by omega
      have hcurrent : s.cursor.current? = some s.cursor.tokens[s.cursor.position] :=
        Array.getElem?_eq_getElem hlt
      have hadvance : s.advance.cursor = s.cursor.next := by
        rw [cursor_advance, HostCursor.pass, hcurrent]
        rfl
      have hdrop : (s.cursor.tape s.elements).all.drop s.cursor.position =
          s.elements.read s.cursor.tokens[s.cursor.position] ::
            (s.cursor.tape s.elements).all.drop (s.cursor.position + 1) := by
        have hall : s.cursor.position < (s.cursor.tape s.elements).all.length := by
          rw [Tape.length_all, HostCursor.size_tape]
          omega
        rw [List.drop_eq_getElem_cons hall]
        simp [Tape.all, HostCursor.tape, hlt]
      rw [hdrop]
      refine ⟨?_, fun a next hpull => ?_⟩
      · rw [List.length_drop, Tape.length_all, HostCursor.size_tape, hbound]
        omega
      · rw [pull_eq, hcurrent] at hpull
        split at hpull
        · cases hpull
        · cases hpull
          refine ⟨rfl, ?_⟩
          have hrest := ih s.advance (by
            rw [hadvance]
            simp only [HostCursor.next]
            omega) (CursorBuilder.remaining_eq _)
          rw [hadvance] at hrest
          exact hrest

end Supervised

end TreeProjection
