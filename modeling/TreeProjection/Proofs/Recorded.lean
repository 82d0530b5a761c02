import TreeProjection.Proofs.Covering

/-! # What the recording builder keeps of an outline

The recording builder writes down the calls that carry an outline out.  The tokens passed can be counted in the
record, and an error element of the outline is a region in it that is opened and closed as an error.

* `RecordingBuilder.passed` — how many tokens are passed by calls.
* `RecordingBuilder.ErrorAround` — a region is closed as an error element around a place.
* `RecordingBuilder.recorded_build` — the record of an outline. -/

namespace TreeProjection

namespace RecordingBuilder

/-- Whether a call passes a token. -/
def Call.isAdvance : Call → Bool
  | advance _ => true
  | _ => false

/-- How many tokens are passed by calls. -/
def passed (cs : List Call) : Nat := cs.countP Call.isAdvance

@[simp] theorem passed_append (cs ds : List Call) : passed (cs ++ ds) = passed cs + passed ds :=
  List.countP_append

@[simp] theorem passed_mark (k : Nat) (cs : List Call) : passed (.mark k :: cs) = passed cs := rfl

/-- **A region is closed as an error element around the place `a`**, when the calls begin with `s` tokens passed:
at most `a` tokens are passed when it is opened, and at least `a` when it is closed. -/
def ErrorAround (a s : Nat) (cs : List Call) : Prop :=
  ∃ before inside after marker message,
    cs = before ++ .mark marker :: (inside ++ .error marker message :: after) ∧
      s + passed before ≤ a ∧ a ≤ s + passed (before ++ inside)

namespace ErrorAround

variable {a s : Nat} {cs ds : List Call}

/-- Calls that come after make no difference. -/
theorem append_left (h : ErrorAround a s cs) : ErrorAround a s (cs ++ ds) := by
  obtain ⟨before, inside, after, marker, message, rfl, hopened, hclosed⟩ := h
  exact ⟨before, inside, after ++ ds, marker, message, by simp, hopened, hclosed⟩

/-- Calls that come before pass the tokens before. -/
theorem append_right (h : ErrorAround a (s + passed cs) ds) : ErrorAround a s (cs ++ ds) := by
  obtain ⟨before, inside, after, marker, message, rfl, hopened, hclosed⟩ := h
  refine ⟨cs ++ before, inside, after, marker, message, by simp, ?_, ?_⟩
  · rwa [passed_append, ← Nat.add_assoc]
  · rwa [List.append_assoc, passed_append, ← Nat.add_assoc]

end ErrorAround

/-- **Outlines have been recorded**: their tokens are passed, and their error elements are in the record. -/
structure Recorded (os : List Outline) (b b' : RecordingBuilder) : Prop where
  /-- The reader has moved on by the tokens. -/
  cursor : b'.cursor = { b.cursor with
    position := b.cursor.position + (Outline.tokensOf os).length }
  /-- Calls have been added to the record. -/
  calls : ∃ cs, b'.calls.toList = b.calls.toList ++ cs ∧
    passed cs = (Outline.tokensOf os).length ∧
      ∀ a, Outline.CoversAny a b.cursor.position os → ErrorAround a b.cursor.position cs

variable {b b' : RecordingBuilder} {marker : Nat}

/-- Closing a region adds a call. -/
theorem calls_close {call : Call} (h : b.close marker call = .ok b') :
    b'.calls.toList = b.calls.toList ++ [call] := by
  unfold close at h
  split at h
  · split at h
    · cases h
      exact Array.toList_push
    · cases h
  · cases h

/-- **A region with recorded outlines inside.** -/
theorem Recorded.region {b₁ : RecordingBuilder} {os : List Outline} {o : Outline} {call : Call}
    (hinside : Recorded os b.mark.2 b₁) (hclose : b₁.close b.mark.1 call = .ok b')
    (htokens : o.tokens = Outline.tokensOf os) (hcall : passed [call] = 0)
    (hcovers : ∀ a, o.Covers a b.cursor.position → Outline.CoversAny a b.cursor.position os ∨
      ((∃ message, call = .error b.mark.1 message) ∧ b.cursor.position ≤ a ∧
        a ≤ b.cursor.position + (Outline.tokensOf os).length)) : Recorded [o] b b' := by
  obtain ⟨cs, hcs, hpassed, haround⟩ := hinside.calls
  have hlength : (Outline.tokensOf [o]).length = (Outline.tokensOf os).length := by
    rw [Outline.tokensOf, Outline.tokensOf, List.append_nil, htokens]
  have hcalls : b'.calls.toList = b.calls.toList ++ (.mark b.mark.1 :: (cs ++ [call])) := by
    rw [calls_close hclose, hcs]
    simp [mark]
  refine ⟨?_, _, hcalls, ?_, fun a ha => ?_⟩
  · rw [cursor_close hclose, hinside.cursor, hlength]
    rfl
  · rw [passed_mark, passed_append, hcall, Nat.add_zero, hpassed, hlength]
  · rcases hcovers a ((Outline.coversAny_singleton o).mp ha) with h | ⟨⟨message, rfl⟩, hle, hge⟩
    · have hmarked : ErrorAround a b.cursor.position ([.mark b.mark.1] ++ cs) :=
        (haround a h).append_right
      exact hmarked.append_left
    · exact ⟨[], cs, [], b.mark.1, message, rfl, hle, by rwa [List.nil_append, hpassed]⟩

mutual

/-- **Carrying out an outline on a recording builder** records it. -/
theorem recorded_build : ∀ {o : Outline} {b b' : RecordingBuilder}, Outline.build o b = .ok b' →
    b.cursor.position + o.tokens.length ≤ b.cursor.tokens.size → Recorded [o] b b'
  | .token t, b, b', h, hlen => by
      have hcurrent : b.cursor.current? = some b.cursor.tokens[b.cursor.position] :=
        Array.getElem?_eq_getElem hlen
      have hadvance : b' = b.advance := (Except.ok.inj h).symm
      rw [hadvance, advance, hcurrent]
      refine ⟨rfl, _, Array.toList_push, rfl, fun a ha => ?_⟩
      exact ((Outline.coversAny_singleton _).mp ha).elim
  | .node kind parts, b, b', h, hlen => by
      simp only [Outline.build, bind, Except.bind] at h
      split at h
      · cases h
      · rename_i b₁ hparts
        exact (recorded_builds (b := b.mark.2) hparts hlen).region h rfl rfl fun a ha => .inl ha
  | .error message parts, b, b', h, hlen => by
      simp only [Outline.build, bind, Except.bind] at h
      split at h
      · cases h
      · rename_i b₁ hparts
        exact (recorded_builds (b := b.mark.2) hparts hlen).region h rfl rfl fun a ha =>
          ha.symm.imp_right fun h => ⟨⟨message, rfl⟩, h⟩

/-- Carrying out several outlines on a recording builder records them. -/
theorem recorded_builds : ∀ {os : List Outline} {b b' : RecordingBuilder},
    Outline.builds os b = .ok b' →
      b.cursor.position + (Outline.tokensOf os).length ≤ b.cursor.tokens.size → Recorded os b b'
  | [], b, b', h, _ => by
      cases h
      exact ⟨rfl, [], by simp, rfl, fun a ha => ha.elim⟩
  | o :: rest, b, b', h, hlen => by
      simp only [Outline.builds, bind, Except.bind] at h
      rw [Outline.tokensOf, List.length_append] at hlen
      split at h
      · cases h
      · rename_i b₁ ho
        obtain ⟨hcursor, cs, hcs, hpassed, haround⟩ := recorded_build ho (by omega)
        rw [Outline.tokensOf, Outline.tokensOf, List.append_nil] at hcursor hpassed
        obtain ⟨hcursor', ds, hds, hpassed', haround'⟩ := recorded_builds h (by
          rw [hcursor]
          exact Nat.le_trans (Nat.le_of_eq (Nat.add_assoc _ _ _)) hlen)
        refine ⟨?_, cs ++ ds, ?_, ?_, fun a ha => ?_⟩
        · rw [hcursor', hcursor, Outline.tokensOf, List.length_append, Nat.add_assoc]
        · rw [hds, hcs, List.append_assoc]
        · rw [passed_append, hpassed, hpassed', Outline.tokensOf, List.length_append]
        · rcases ha with ha | ha
          · exact (haround a ((Outline.coversAny_singleton o).mpr ha)).append_left
          · have hrest := haround' a (by rwa [hcursor])
            rw [hcursor, ← hpassed] at hrest
            exact hrest.append_right

end

end RecordingBuilder

end TreeProjection
