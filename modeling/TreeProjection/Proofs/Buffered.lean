import TreeProjection.Proofs.Ending

/-! # What reading does to a buffer

However an operation of a stream ends, all that it has done is to take tokens from the source, to put the cursor
somewhere, and to note that the stream has been started.  A property of streams that none of these can break is kept.

* `Stream.Stable` — a property that none of these steps can break; `Stable.ahead`, `Stable.consume`, `Stable.seek`.
* `Stream.Numbered` — all tokens of the buffer carry their places there, so none of them is made up. -/

namespace TreeProjection

namespace Stream

variable {σ : Type} {s : Stream σ}

/-- **A property of streams that reading cannot break**: neither taking a token, nor moving the cursor, nor noting
that the stream has been started. -/
structure Stable (P : Stream σ → Prop) : Prop where
  /-- It does not depend on the source. -/
  source : ∀ s source, P s → P { s with source }
  /-- It is kept when a token is taken. -/
  push : ∀ s t, P s → P (s.push t)
  /-- It does not depend on the cursor. -/
  cursor : ∀ s cursor, P s → P { s with cursor }
  /-- It is kept when the stream is started. -/
  started : ∀ s, P s → P { s with started := true }

namespace Stable

variable {P : Stream σ → Prop} (h : Stable P)

/-- Looking into the buffer changes nothing. -/
theorem tokenAt (i : Nat) (hs : P s) : Ends (Stream.tokenAt i) s fun _ t => P t := by
  change Ends (get >>= _) _ _
  rw [ends_get_bind]
  cases s.buffer[i]? <;> exact hs

variable [TokenSource σ]

include h

/-- Taking tokens. -/
theorem fetchFrom (i n : Nat) (hs : P s) : Ends (Stream.fetchFrom i n) s fun _ t => P t := by
  -- induction on the fuel; a failing source changes only the source, and each token is pushed once
  induction n generalizing s with
  | zero => exact hs
  | succ n ih =>
      unfold Ends Stream.fetchFrom
      cases hpull : TokenSource.pull s.source with
      | mk answer source =>
          cases answer with
          | error e => exact h.source s source hs
          | ok t =>
              have hpushed : P ({ s with source }.push t) := h.push _ t (h.source s source hs)
              by_cases hstop : (t.isEof || (decide (i ≤ s.buffer.size) && t.isVisible)) = true
              · simp only [hstop, if_true]
                exact hpushed
              · simp only [hstop, if_false, Bool.false_eq_true]
                exact ih hpushed

/-- Looking for where to read on. -/
theorem nextStop (i : Nat) (hs : P s) : Ends (Stream.nextStop i) s fun _ t => P t := by
  unfold Ends Stream.nextStop
  cases s.findStop? i with
  | some j => exact hs
  | none =>
      by_cases hended : s.ended = true
      · simp only [hended, if_true]
        exact hs
      · simp only [hended, if_false, Bool.false_eq_true]
        exact h.fetchFrom i _ hs

/-- Putting the cursor where reading goes on. -/
theorem moveTo (i : Nat) (hs : P s) :
    Ends (do let cursor ← Stream.nextStop i; modify fun s => { s with cursor }) s fun _ t => P t :=
  (h.nextStop i hs).bind (fun cursor t ht => h.cursor t cursor ht) fun _ _ ht => ht

/-- Starting a stream. -/
theorem start (hs : P s) : Ends Stream.start s fun _ t => P t := by
  unfold Stream.start
  change Ends (get >>= _) _ _
  rw [ends_get_bind]
  by_cases hstarted : s.started = true
  · rw [if_pos hstarted]
    exact hs
  · rw [if_neg hstarted, ends_set_bind]
    exact h.moveTo 0 (h.started s hs)

/-- Going on by a number of visible tokens. -/
theorem skipFrom (n i : Nat) (hs : P s) : Ends (Stream.skipFrom n i) s fun _ t => P t := by
  induction n generalizing s i with
  | zero => exact hs
  | succ n ih =>
      unfold Stream.skipFrom
      refine (tokenAt i hs).bind (fun t u hu => ?_) fun _ _ ht => ht
      by_cases heof : t.isEof = true
      · rw [if_pos heof]
        exact hu
      · rw [if_neg heof]
        exact (h.nextStop (i + 1) hu).bind (fun j v hv => ih j hv) fun _ _ ht => ht

/-- **Looking ahead.** -/
theorem ahead (k : Nat) (hs : P s) : Ends (Stream.ahead k) s fun _ t => P t := by
  refine (h.start hs).bind (fun _ t ht => ?_) fun _ _ ht => ht
  rw [ends_get_bind]
  exact (h.skipFrom (k - 1) t.cursor ht).bind (fun i u hu => tokenAt i hu) fun _ _ ht => ht

/-- **Moving past the current token.** -/
theorem consume (hs : P s) : Ends Stream.consume s fun _ t => P t := by
  refine (h.start hs).bind (fun _ t ht => ?_) fun _ _ ht => ht
  rw [ends_get_bind]
  refine (tokenAt t.cursor ht).bind (fun u v hv => ?_) fun _ _ ht => ht
  by_cases heof : u.isEof = true
  · rw [if_pos heof]
    exact hv
  · rw [if_neg heof]
    exact h.moveTo _ hv

/-- **Moving to a place.** -/
theorem seek (i : Nat) (hs : P s) : Ends (Stream.seek i) s fun _ t => P t :=
  (h.start hs).bind (fun _ _ ht => h.moveTo i ht) fun _ _ ht => ht

end Stable

/-- A stream stays started. -/
theorem stable_started : Stable fun s : Stream σ => s.started = true :=
  ⟨fun _ _ h => h, fun _ _ h => h, fun _ _ h => h, fun _ _ => rfl⟩

/-- A stream that has been read from has been started. -/
theorem ends_ahead_started [TokenSource σ] (k : Nat) (s : Stream σ) :
    Ends (ahead k) s fun _ t => t.started = true := by
  have hstart : Ends start s fun _ t => t.started = true := by
    unfold start
    change Ends (get >>= _) _ _
    rw [ends_get_bind]
    by_cases hstarted : s.started = true
    · rw [if_pos hstarted]
      exact hstarted
    · rw [if_neg hstarted]
      exact stable_started.moveTo 0 (s := { s with started := true }) rfl
  refine hstart.bind (fun _ t ht => ?_) fun _ _ ht => ht
  rw [ends_get_bind]
  exact (stable_started.skipFrom (k - 1) t.cursor ht).bind (fun i u hu => Stable.tokenAt i hu) fun _ _ ht => ht

/-! ## Tokens that carry their places -/

/-- **All tokens of the buffer carry their places**: none of them is made up. -/
def Numbered (s : Stream σ) : Prop := ∀ t ∈ s.buffer, t.isConjured = false

/-- No token has been taken yet. -/
theorem numbered_ofSource (source : σ) : (ofSource source).Numbered := by
  simp [Numbered, ofSource]

/-- A token gets its place when it is taken. -/
theorem stable_numbered : Stable (Numbered (σ := σ)) where
  source _ _ h := h
  push s t h u hu := by
    rcases Array.mem_push.mp hu with hu | rfl
    · exact h u hu
    · rfl
  cursor _ _ h := h
  started _ h := h

/-- A token that is found in the buffer carries its place. -/
theorem Numbered.answers_tokenAt (hs : s.Numbered) (i : Nat) :
    Answers (tokenAt i) s fun t _ => t.isConjured = false := by
  change Ends (get >>= _) _ _
  rw [ends_get_bind]
  cases hget : s.buffer[i]? with
  | none => exact nofun
  | some t =>
      rintro _ ⟨⟩
      exact hs t (Array.mem_of_getElem? hget)

/-- **No token ahead is made up.** -/
theorem Numbered.answers_ahead [TokenSource σ] (hs : s.Numbered) (k : Nat) :
    Answers (ahead k) s fun t _ => t.isConjured = false := by
  have hsome : ∀ {α : Type} {act : StreamM σ α} {s : Stream σ},
      Ends act s (fun _ t => t.Numbered) → Answers act s fun _ t => t.Numbered :=
    fun h => h.mono fun _ _ ht _ _ => ht
  refine (hsome (stable_numbered.start hs)).bind fun _ t ht => ?_
  change Ends (get >>= _) _ _
  rw [ends_get_bind]
  exact (hsome (stable_numbered.skipFrom (k - 1) t.cursor ht)).bind fun i u hu =>
    hu.answers_tokenAt i

end Stream

end TreeProjection
