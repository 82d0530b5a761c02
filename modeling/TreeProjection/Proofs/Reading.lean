import TreeProjection.Proofs.Ending

/-! # Reading a tape

What a stream reads is fixed before anything is read: the tokens that its source gives, up to the end of the
input.  A `Tape` holds them.  The stream takes tokens off its source only when they are asked for, but every
answer that it gives is an answer about the tape.

* `Tape.token`, `Tape.stop` — the token at a place, and the first place from which the recognizer reads on.
* `Feeds` — a source that, as long as it does not fail, gives the tokens of a list.
* `Stream.Reads` — a stream whose buffer is a piece of the tape, the rest of which its source feeds.
* `Stream.Standing` — the place of the cursor on the tape.
* `Stream.answers_ahead`, `Stream.answers_consume`, `Stream.answers_seek` — the operations, in terms of the
  tape.
* `Stream.Stalls` — nothing but a failure of the source keeps an operation from answering. -/

namespace TreeProjection

/-- **What a source gives.** Tokens none of which is the end of the input, and then the end. -/
structure Tape where
  /-- The tokens before the end. -/
  body : List Token
  /-- The end of the input. -/
  last : Token
  /-- No token before the end is the end. -/
  body_inner : ∀ t ∈ body, t.isEof = false
  /-- The end is the end. -/
  last_isEof : last.isEof = true

namespace Tape

variable (x : Tape) {i j k : Nat}

/-- The number of tokens before the end, which is the place of the end. -/
def size : Nat := x.body.length

/-- All tokens, the end included. -/
def all : List Token := x.body ++ [x.last]

/-- **The token at a place**, as a stream hands it out; from the end on it is the end. -/
def token (i : Nat) : Token := { x.all[i]?.getD x.last with index := some (min i x.size) }

/-- The type of the token at a place. -/
def type (i : Nat) : TokenType := (x.token i).ty

/-- **Where reading goes on** from a place: the first visible token there or after it, or the end. -/
def stop (i : Nat) : Nat := min i x.size + (x.body.drop i).findIdx Token.isVisible

/-- The place of the `n`-th visible token after the one at a place. -/
def skip : (n i : Nat) → Nat
  | 0, i => i
  | n + 1, i => skip n (x.stop (i + 1))

/-- The visible tokens from one place up to another. -/
def between (i j : Nat) : List Token :=
  ((List.range' i (j - i)).map x.token).filter Token.isVisible

@[simp] theorem length_all : x.all.length = x.size + 1 := by simp [all, size]

@[simp] theorem token_index (i : Nat) : (x.token i).index = some (min i x.size) := rfl

@[simp] theorem isConjured_token (i : Nat) : (x.token i).isConjured = false := rfl

/-- Before the end a place holds a token of the body. -/
theorem getElem?_all_of_lt (h : i < x.size) : ∃ t ∈ x.body, x.all[i]? = some t := by
  refine ⟨x.body[i], List.getElem_mem h, ?_⟩
  rw [all, List.getElem?_append_left h, List.getElem?_eq_getElem h]

/-- From the end on every place holds the end. -/
theorem getD_all_of_le (h : x.size ≤ i) : x.all[i]?.getD x.last = x.last := by
  rw [all, List.getElem?_append_right h]
  cases i - x.body.length <;> rfl

/-- The end is the only token of its type. -/
@[simp] theorem token_isEof : (x.token i).isEof = decide (x.size ≤ i) := by
  by_cases h : x.size ≤ i
  · have hlast := x.last_isEof
    simp only [token, x.getD_all_of_le h, Token.isEof] at hlast ⊢
    simp [h, hlast]
  · obtain ⟨t, ht, hall⟩ := x.getElem?_all_of_lt (Nat.lt_of_not_le h)
    have hinner := x.body_inner t ht
    simp only [token, hall, Token.isEof, Option.getD_some] at hinner ⊢
    simp [h, hinner]

/-- The type of the end of the input is that of the end alone. -/
theorem type_eq_eof_iff : x.type i = .eof ↔ x.size ≤ i := by
  rw [← TokenType.isEof_iff, ← decide_eq_true_iff (p := x.size ≤ i), ← x.token_isEof]
  rfl

/-! ## Where reading goes on -/

/-- Reading never goes past the end. -/
theorem stop_le : x.stop i ≤ x.size := by
  have h : (x.body.drop i).findIdx Token.isVisible ≤ (x.body.drop i).length :=
    List.findIdx_le_length
  simp only [List.length_drop] at h
  simp only [stop, size] at h ⊢
  omega

/-- Reading never goes back. -/
theorem le_stop (h : i ≤ x.size) : i ≤ x.stop i := by
  simp only [stop]
  omega

/-- The place where reading goes on is one to stop at. -/
theorem isStop_stop : Stream.isStop (x.token (x.stop i)) = true := by
  -- the place is the end, which is one to stop at, or the visible token that `findIdx` finds
  by_cases h : x.stop i = x.size
  · simp [Stream.isStop, h]
  · have hle := x.stop_le (i := i)
    have hlt : (x.body.drop i).findIdx Token.isVisible < (x.body.drop i).length := by
      simp only [stop, size, List.length_drop] at h hle ⊢
      omega
    have hvis := List.findIdx_getElem (w := hlt)
    have hi : i ≤ x.body.length := by
      simp only [List.length_drop] at hlt
      omega
    have hsize : i + (x.body.drop i).findIdx Token.isVisible < x.body.length := by
      simp only [List.length_drop] at hlt
      omega
    rw [List.getElem_drop] at hvis
    have hstop : x.stop i = i + (x.body.drop i).findIdx Token.isVisible := by
      simp only [stop, size, Nat.min_eq_left hi]
    simp only [Stream.isStop, hstop, token, all, List.getElem?_append_left hsize,
      List.getElem?_eq_getElem hsize, Option.getD_some, Token.isVisible, Bool.or_eq_true] at hvis ⊢
    exact .inl hvis

/-- Before the place where reading goes on there is none to stop at. -/
theorem not_isStop_of_lt_stop (hik : i ≤ k) (hk : k < x.stop i) :
    Stream.isStop (x.token k) = false := by
  have hsize := x.stop_le (i := i)
  have hle : i ≤ x.size := by omega
  have hlt : k - i < (x.body.drop i).findIdx Token.isVisible := by
    simp only [stop] at hk
    omega
  have hnot := List.not_of_lt_findIdx hlt
  have hklt : k < x.body.length := by
    simp only [size] at hsize
    omega
  rw [List.getElem_drop] at hnot
  have hki : i + (k - i) = k := by omega
  simp only [hki] at hnot
  -- a place before the end is no end of input, so only being visible could make it one to stop at
  have heof : (x.token k).isEof = false := by
    rw [x.token_isEof, decide_eq_false_iff_not]
    exact Nat.not_le_of_lt hklt
  simp only [Stream.isStop, heof, Bool.or_false]
  simp only [token, all, List.getElem?_append_left hklt, List.getElem?_eq_getElem hklt,
    Option.getD_some, Token.isVisible] at hnot ⊢
  exact hnot

/-- The first place to stop at is where reading goes on. -/
theorem stop_eq (hij : i ≤ j) (hj : j ≤ x.size) (hstop : Stream.isStop (x.token j) = true)
    (hnot : ∀ k, i ≤ k → k < j → Stream.isStop (x.token k) = false) : x.stop i = j := by
  have hi : i ≤ x.stop i := x.le_stop (by omega)
  rcases Nat.lt_trichotomy (x.stop i) j with h | h | h
  · have := hnot _ hi h
    rw [x.isStop_stop] at this
    cases this
  · exact h
  · have := x.not_isStop_of_lt_stop hij h
    rw [hstop] at this
    cases this

/-- From a place to stop at, reading goes on there. -/
theorem stop_self (hi : i ≤ x.size) (h : Stream.isStop (x.token i) = true) : x.stop i = i :=
  x.stop_eq (Nat.le_refl _) hi h fun k h1 h2 => by omega

/-- From the end on, reading stays at the end. -/
@[simp] theorem stop_of_le (h : x.size ≤ i) : x.stop i = x.size := by
  have hdrop : x.body.drop i = [] := List.drop_eq_nil_of_le h
  simp [stop, hdrop, Nat.min_eq_right h]

/-- The place after one is not before it. -/
theorem le_stop_succ (h : i ≤ x.size) : i ≤ x.stop (i + 1) := by
  rcases Nat.eq_or_lt_of_le h with rfl | hlt
  · exact Nat.le_of_eq (x.stop_of_le (Nat.le_succ _)).symm
  · exact Nat.le_of_succ_le (x.le_stop hlt)

/-- At the end nothing more is passed over. -/
@[simp] theorem skip_size (n : Nat) : x.skip n x.size = x.size := by
  induction n with
  | zero => rfl
  | succ n ih =>
      rw [skip, x.stop_of_le (Nat.le_succ _), ih]

/-! ## What lies between two places -/

@[simp] theorem between_self : x.between i i = [] := by simp [between]

/-- Two stretches end to end are one stretch. -/
theorem between_append (hij : i ≤ j) (hjk : j ≤ k) :
    x.between i j ++ x.between j k = x.between i k := by
  have hrange : List.range' i (k - i) = List.range' i (j - i) ++ List.range' j (k - j) := by
    have hsplit := @List.range'_append_1 i (j - i) (k - j)
    have hj : i + (j - i) = j := by omega
    have hk : (j - i) + (k - j) = k - i := by omega
    rw [hj, hk] at hsplit
    exact hsplit.symm
  rw [between, between, between, hrange, List.map_append, List.filter_append]

/-- Before the place where reading goes on there is no visible token. -/
@[simp] theorem between_to_stop : x.between i (x.stop i) = [] := by
  rw [between, List.filter_eq_nil_iff]
  intro t ht
  obtain ⟨k, hk, rfl⟩ := List.mem_map.mp ht
  rw [List.mem_range'_1] at hk
  have hnot := x.not_isStop_of_lt_stop hk.1 (by omega)
  simp only [Stream.isStop, Bool.or_eq_false_iff] at hnot
  simp [hnot.1]

/-- From one place to stop at to the next there is one visible token. -/
theorem between_stop (hi : i < x.size) (h : Stream.isStop (x.token i) = true) :
    x.between i (x.stop (i + 1)) = [x.token i] := by
  have hle := x.le_stop (i := i + 1) hi
  have hvis : (x.token i).isVisible = true := by
    simpa [Stream.isStop, Nat.not_le_of_lt hi] using h
  rw [← x.between_append (Nat.le_succ i) hle]
  have hfirst : x.between i (i + 1) = [x.token i] := by
    have hone : i + 1 - i = 1 := by omega
    simp [between, hone, hvis]
  rw [hfirst, between_to_stop, List.append_nil]

/-! ## Tapes without hidden tokens -/

/-- **Nothing is hidden**: the recognizer sees every token. -/
def Plain : Prop := ∀ t ∈ x.body, t.isVisible = true

/-- Where nothing is hidden, every place up to the end is one to stop at. -/
theorem Plain.isStop {x : Tape} (h : x.Plain) (i : Nat) : Stream.isStop (x.token i) = true := by
  by_cases hi : x.size ≤ i
  · simp [Stream.isStop, hi]
  · obtain ⟨t, ht, hall⟩ := x.getElem?_all_of_lt (Nat.lt_of_not_le hi)
    have hvis := h t ht
    simp only [Stream.isStop, token, hall, Option.getD_some, Token.isVisible] at hvis ⊢
    rw [hvis, Bool.true_or]

/-- Where nothing is hidden, reading goes on right here. -/
theorem Plain.stop {x : Tape} (h : x.Plain) (i : Nat) : x.stop i = min i x.size := by
  rcases Nat.le_total i x.size with hi | hi
  · rw [x.stop_self hi (h.isStop i), Nat.min_eq_left hi]
  · rw [x.stop_of_le hi, Nat.min_eq_right hi]

/-- Where nothing is hidden, all tokens between two places are visible. -/
theorem Plain.between {x : Tape} (h : x.Plain) (hj : j ≤ x.size) :
    x.between i j = (List.range' i (j - i)).map x.token := by
  rw [Tape.between, List.filter_eq_self]
  intro t ht
  obtain ⟨k, hk, rfl⟩ := List.mem_map.mp ht
  rw [List.mem_range'_1] at hk
  have hstop := h.isStop k
  have hlt : ¬ x.size ≤ k := by omega
  simpa [Stream.isStop, hlt] using hstop

end Tape

/-! ## The buffer of a stream -/

namespace Stream

variable {σ : Type} {s : Stream σ} {i j n : Nat}

/-- What an operation that only takes tokens from the source leaves as it was. -/
structure Longer (s t : Stream σ) : Prop where
  /-- The buffer does not shrink. -/
  size_le : s.buffer.size ≤ t.buffer.size
  /-- The cursor stays. -/
  cursor : t.cursor = s.cursor
  /-- The stream has been started or not, as before. -/
  started : t.started = s.started

theorem Longer.refl (s : Stream σ) : Longer s s := ⟨Nat.le_refl _, rfl, rfl⟩

theorem Longer.trans {s t u : Stream σ} (h : Longer s t) (h' : Longer t u) : Longer s u :=
  ⟨Nat.le_trans h.size_le h'.size_le, h'.cursor.trans h.cursor, h'.started.trans h.started⟩

/-- The search among the tokens that have been taken finds the first place to stop at. -/
theorem stopAmong?_eq_some (h : s.stopAmong? n i = some j) :
    i ≤ j ∧ j < i + n ∧ s.buffer[j]?.any isStop = true ∧
      ∀ k, i ≤ k → k < j → s.buffer[k]?.any isStop = false := by
  -- induction on how many places are searched; the first of them is the answer or is passed over
  induction n generalizing i with
  | zero => cases h
  | succ n ih =>
      unfold stopAmong? at h
      by_cases hi : s.buffer[i]?.any isStop = true
      · rw [if_pos hi] at h
        cases h
        exact ⟨Nat.le_refl _, by omega, hi, fun k h1 h2 => by omega⟩
      · rw [if_neg hi] at h
        obtain ⟨hij, hj, hstop, hnot⟩ := ih h
        refine ⟨by omega, by omega, hstop, fun k h1 h2 => ?_⟩
        rcases Nat.eq_or_lt_of_le h1 with rfl | hlt
        · simpa using hi
        · exact hnot k hlt h2

/-- The search that finds nothing has passed over nothing to stop at. -/
theorem stopAmong?_eq_none (h : s.stopAmong? n i = none) :
    ∀ k, i ≤ k → k < i + n → s.buffer[k]?.any isStop = false := by
  induction n generalizing i with
  | zero =>
      intro k h1 h2
      omega
  | succ n ih =>
      unfold stopAmong? at h
      by_cases hi : s.buffer[i]?.any isStop = true
      · rw [if_pos hi] at h
        cases h
      · rw [if_neg hi] at h
        intro k h1 h2
        rcases Nat.eq_or_lt_of_le h1 with rfl | hlt
        · simpa using hi
        · exact ih h k hlt (by omega)

end Stream

/-! ## Sources that give the tokens of a list -/

variable {σ : Type} [TokenSource σ]

/-- **A source gives the tokens of a list**, one after the other, as long as it does not fail.  What it
gives after them is left open, and so is what it gives after a failure. -/
def Feeds : List Token → σ → Prop
  | [], _ => True
  | t :: rest, source => rest.length ≤ TokenSource.bound source ∧
      ∀ a next, TokenSource.pull source = (.ok a, next) → a = t ∧ Feeds rest next

/-- There are no more tokens on a tape than the source that gives them says. -/
theorem Feeds.size_le_bound {x : Tape} {source : σ} (h : Feeds x.all source) :
    x.size ≤ TokenSource.bound source := by
  unfold Tape.all at h
  cases hbody : x.body with
  | nil =>
      rw [Tape.size, hbody]
      exact Nat.zero_le _
  | cons t rest =>
      rw [hbody, List.cons_append] at h
      have hrest := h.1
      rw [List.length_append, List.length_singleton] at hrest
      rwa [Tape.size, hbody, List.length_cons]

/-- **A source comes of another one by pulls.** -/
inductive TokenSource.Drawn (s : σ) : σ → Prop where
  /-- Nothing has been taken from it. -/
  | refl : Drawn s s
  /-- Another token has been taken. -/
  | pull {t : σ} (h : Drawn s t) : Drawn s (TokenSource.pull t).2

/-- First some pulls, then others. -/
theorem TokenSource.Drawn.trans {s t u : σ} (h : Drawn s t) (h' : Drawn t u) : Drawn s u := by
  induction h' with
  | refl => exact h
  | pull _ ih => exact .pull ih

namespace Stream

variable {x : Tape} {s : Stream σ} {i n : Nat}

/-- **A stream reads a tape.** What it has taken is a piece of the tape from the start on, and its source
feeds the rest. -/
structure Reads (x : Tape) (s : Stream σ) : Prop where
  /-- The buffer holds the tokens of the tape. -/
  get : ∀ i, i < s.buffer.size → s.buffer[i]? = some (x.token i)
  /-- There is nothing beyond the end. -/
  size_le : s.buffer.size ≤ x.size + 1
  /-- The end has been taken once everything has been. -/
  ended : s.ended = decide (s.buffer.size = x.size + 1)
  /-- The rest is still to come. -/
  feeds : Feeds (x.all.drop s.buffer.size) s.source

/-- What has not been taken from the source is still to come, and its bound says so. -/
theorem Reads.size_le_bound (h : s.Reads x) : x.size ≤ s.buffer.size + TokenSource.bound s.source := by
  have hfeeds := h.feeds
  rcases Nat.lt_or_ge s.buffer.size x.all.length with hlt | hge
  · rw [List.drop_eq_getElem_cons hlt] at hfeeds
    have hrest := hfeeds.1
    rw [List.length_drop, x.length_all] at hrest
    omega
  · rw [x.length_all] at hge
    omega

/-- A stream from which nothing has been taken reads what its source feeds. -/
theorem reads_ofSource {source : σ} (h : Feeds x.all source) : (ofSource source).Reads x where
  get i hi := absurd hi (Nat.not_lt_zero i)
  size_le := Nat.zero_le _
  ended := by simp [ofSource]
  feeds := h

/-- **One more token.** A token taken before the end is the next one of the tape. -/
theorem Reads.push (h : s.Reads x) (hlt : s.buffer.size ≤ x.size) {t : Token} {source : σ}
    (hpull : TokenSource.pull s.source = (.ok t, source)) :
    ({ s with source }.push t).Reads x ∧
      { t with index := some s.buffer.size } = x.token s.buffer.size ∧
      t.isEof = decide (s.buffer.size = x.size) := by
  have hall : s.buffer.size < x.all.length := by
    rw [x.length_all]
    omega
  have hfeeds := h.feeds
  rw [List.drop_eq_getElem_cons hall] at hfeeds
  obtain ⟨rfl, hrest⟩ := hfeeds.2 _ _ hpull
  have htoken : { x.all[s.buffer.size] with index := some s.buffer.size } =
      x.token s.buffer.size := by
    simp only [Tape.token, List.getElem?_eq_getElem hall, Option.getD_some, Nat.min_eq_left hlt]
  have heof : (x.all[s.buffer.size]).isEof = decide (s.buffer.size = x.size) := by
    have hcongr := congrArg Token.isEof htoken
    rw [x.token_isEof] at hcongr
    have hiff : decide (x.size ≤ s.buffer.size) = decide (s.buffer.size = x.size) := by
      simp only [decide_eq_decide]
      omega
    rw [← hiff, ← hcongr]
    rfl
  -- the fields of `Reads`: what has been taken, how much, whether the end has been, and what is left
  refine ⟨⟨?_, ?_, ?_, ?_⟩, htoken, heof⟩
  · intro i hi
    simp only [Stream.push, Array.size_push] at hi ⊢
    rcases Nat.lt_or_ge i s.buffer.size with hold | hnew
    · rw [Array.getElem?_push_lt hold, ← Array.getElem?_eq_getElem hold]
      exact h.get i hold
    · obtain rfl : i = s.buffer.size := by omega
      rw [Array.getElem?_push_size, htoken]
  · simp only [Stream.push, Array.size_push]
    omega
  · simp only [Stream.push, Array.size_push, heof, decide_eq_decide]
    omega
  · simp only [Stream.push, Array.size_push]
    exact hrest

/-- **Taking tokens until one is there to stop at.** If there is none to stop at among the tokens taken so
far, the answer is the place where reading goes on. -/
theorem answers_fetchFrom (h : s.Reads x) (hlt : s.buffer.size ≤ x.size)
    (hnot : ∀ k, i ≤ k → k < s.buffer.size → isStop (x.token k) = false)
    (hfuel : x.size < n + s.buffer.size) :
    Answers (fetchFrom i n) s fun j t =>
      j = x.stop i ∧ t.Reads x ∧ j < t.buffer.size ∧ Longer s t := by
  -- induction on the fuel, which `hfuel` keeps ahead of the tokens that are still to be taken
  induction n generalizing s with
  | zero => omega
  | succ n ih =>
      unfold Answers Ends fetchFrom
      cases hpull : TokenSource.pull s.source with
      | mk answer source =>
          cases answer with
          | error e => exact fun _ h => nomatch h
          | ok t =>
              obtain ⟨hreads, htoken, heof⟩ := h.push hlt hpull
              have hsize : ({ s with source }.push t).buffer.size = s.buffer.size + 1 := by
                simp [Stream.push]
              have hlonger : Longer s ({ s with source }.push t) :=
                ⟨by omega, rfl, rfl⟩
              have hvis : t.isVisible = (x.token s.buffer.size).isVisible := by
                rw [← htoken]
                rfl
              by_cases hstop : (t.isEof || (decide (i ≤ s.buffer.size) && t.isVisible)) = true
              · -- the token just taken is the place
                simp only [hstop, if_true]
                rintro _ ⟨⟩
                refine ⟨?_, hreads, by omega, hlonger⟩
                -- before `i` only the end stops the taking, and then `i` lies past it
                by_cases hi : i ≤ s.buffer.size
                · refine (x.stop_eq hi hlt ?_ hnot).symm
                  have heq : s.buffer.size = x.size ↔ x.size ≤ s.buffer.size := by omega
                  simpa [isStop, hi, heof, hvis, heq, or_comm] using hstop
                · simp only [hi, decide_false, Bool.false_and, Bool.or_false, heof,
                    decide_eq_true_eq] at hstop
                  rw [x.stop_of_le (by omega), hstop]
              · -- it is passed over, which adds it to the places in `hnot`
                simp only [Bool.not_eq_true, Bool.or_eq_false_iff] at hstop
                have hmore : s.buffer.size ≠ x.size := by
                  simpa [heof] using hstop.1
                have hnext := ih hreads (by omega) ?_ (by omega)
                · simp only [hstop.1, hstop.2, Bool.or_false, Bool.false_eq_true, if_false]
                  exact hnext.mono fun j u ⟨hj, hread, hlt, hlong⟩ =>
                    ⟨hj, hread, hlt, hlonger.trans hlong⟩
                · intro k hik hk
                  rcases Nat.lt_or_ge k s.buffer.size with hold | hnew
                  · exact hnot k hik hold
                  · obtain rfl : k = s.buffer.size := by omega
                    have hvis' : (x.token s.buffer.size).isVisible = false := by
                      simpa [hik, hvis] using hstop.2
                    have hsz : ¬ x.size ≤ s.buffer.size := by omega
                    simp [isStop, hvis', hsz]

/-- **Where reading goes on.** -/
theorem answers_nextStop (h : s.Reads x) (i : Nat) :
    Answers (nextStop i) s fun j t =>
      j = x.stop i ∧ t.Reads x ∧ j < t.buffer.size ∧ Longer s t := by
  have hany : ∀ k, k < s.buffer.size → s.buffer[k]?.any isStop = isStop (x.token k) := by
    intro k hk
    rw [h.get k hk, Option.any_some]
  have hsize := h.size_le
  unfold Answers Ends nextStop findStop?
  cases hfind : s.stopAmong? (s.buffer.size - i) i with
  | some j =>
      -- one of the tokens taken so far is a place to stop at
      obtain ⟨hij, hj, hstop, hnot⟩ := stopAmong?_eq_some hfind
      have hjlt : j < s.buffer.size := by omega
      rw [hany j hjlt] at hstop
      rintro _ ⟨⟩
      refine ⟨(x.stop_eq hij (by omega) hstop fun k h1 h2 => ?_).symm, h, hjlt, .refl s⟩
      rw [← hany k (by omega)]
      exact hnot k h1 h2
  | none =>
      have hnot : ∀ k, i ≤ k → k < s.buffer.size → isStop (x.token k) = false := by
        intro k h1 h2
        rw [← hany k h2]
        exact stopAmong?_eq_none hfind k h1 (by omega)
      -- none of them is: either the end is among them, so that `i` is past it, or more have to be taken
      by_cases hended : s.ended = true
      · have hfull : s.buffer.size = x.size + 1 := by simpa [h.ended] using hended
        simp only [hended, if_true]
        rintro _ ⟨⟩
        refine ⟨?_, h, by omega, .refl s⟩
        have hi : x.size ≤ i := by
          refine Nat.le_of_not_lt fun hlt => ?_
          have := hnot x.size (by omega) (by omega)
          simp [isStop] at this
        rw [x.stop_of_le hi]
        omega
      · simp only [hended, if_false, Bool.false_eq_true]
        have hlt : s.buffer.size ≠ x.size + 1 := by simpa [h.ended] using hended
        have hfeeds := h.feeds
        have hall : s.buffer.size < x.all.length := by
          rw [x.length_all]
          omega
        rw [List.drop_eq_getElem_cons hall] at hfeeds
        have hbound := hfeeds.1
        rw [List.length_drop, x.length_all] at hbound
        exact answers_fetchFrom h (by omega) hnot (by omega)

/-- A token that has been taken is that of the tape. -/
theorem answers_tokenAt (h : s.Reads x) (hi : i < s.buffer.size) :
    Answers (tokenAt i) s fun t u => t = x.token i ∧ u = s := by
  unfold tokenAt
  change Ends _ s _
  rw [ends_get_bind, h.get i hi]
  rintro _ ⟨⟩
  exact ⟨rfl, rfl⟩

/-- Going on by a number of visible tokens, from one that has been taken. -/
theorem answers_skipFrom (h : s.Reads x) (hi : i < s.buffer.size) (n : Nat) :
    Answers (skipFrom n i) s fun j t =>
      j = x.skip n i ∧ t.Reads x ∧ j < t.buffer.size ∧ Longer s t := by
  induction n generalizing s i with
  | zero => exact .of_pure ⟨rfl, h, hi, .refl s⟩
  | succ n ih =>
      unfold skipFrom
      refine (answers_tokenAt h hi).bind ?_
      rintro _ _ ⟨rfl, rfl⟩
      have hsize := h.size_le
      -- the end is passed over by no number of tokens
      by_cases heof : (x.token i).isEof = true
      · rw [if_pos heof]
        have hend : i = x.size := by
          rw [x.token_isEof, decide_eq_true_iff] at heof
          omega
        refine .of_pure ⟨?_, h, hi, .refl _⟩
        rw [hend, x.skip_size]
      · rw [if_neg heof]
        refine (answers_nextStop h (i + 1)).bind ?_
        rintro _ t ⟨rfl, hreads, hlt, hlonger⟩
        exact (ih hreads hlt).mono fun j u ⟨hj, hread, hlt, hlong⟩ =>
          ⟨hj, hread, hlt, hlonger.trans hlong⟩

/-! ## A stream at a place -/

/-- **The cursor stands at a place** of the tape. -/
structure Standing (x : Tape) (i : Nat) (s : Stream σ) : Prop where
  /-- The stream reads the tape. -/
  reads : s.Reads x
  /-- It has been started. -/
  started : s.started = true
  /-- The cursor is there. -/
  cursor : s.cursor = i
  /-- The token there has been taken. -/
  lt_size : i < s.buffer.size
  /-- It is one to stop at. -/
  isStop : isStop (x.token i) = true

/-- **The next operation finds the cursor at a place**: the cursor stands there, or it is put there when the
stream is started. -/
inductive Facing (x : Tape) (i : Nat) (s : Stream σ) : Prop where
  /-- The cursor stands there. -/
  | standing (h : s.Standing x i)
  /-- The stream has not been started, and the place is the first one to stop at. -/
  | fresh (reads : s.Reads x) (started : s.started = false) (first : i = x.stop 0)

namespace Standing

variable {t : Stream σ}

/-- The cursor is not past the end. -/
theorem le_size (h : s.Standing x i) : i ≤ x.size := by
  have h1 := h.reads.size_le
  have h2 := h.lt_size
  omega

/-- Taking more tokens does not move the cursor. -/
theorem longer (h : s.Standing x i) (hreads : t.Reads x) (hlonger : Longer s t) :
    t.Standing x i where
  reads := hreads
  started := hlonger.started.trans h.started
  cursor := hlonger.cursor.trans h.cursor
  lt_size := Nat.lt_of_lt_of_le h.lt_size hlonger.size_le
  isStop := h.isStop

/-- The cursor is put where reading goes on. -/
theorem moved (h : s.Standing x i) (hreads : t.Reads x) (hlonger : Longer s t) {j : Nat}
    (hj : x.stop j < t.buffer.size) : { t with cursor := x.stop j }.Standing x (x.stop j) where
  reads := ⟨hreads.get, hreads.size_le, hreads.ended, hreads.feeds⟩
  started := hlonger.started.trans h.started
  cursor := rfl
  lt_size := hj
  isStop := x.isStop_stop

/-- The place where the cursor stands is where reading goes on from there. -/
theorem stop_eq (h : s.Standing x i) : x.stop i = i := x.stop_self h.le_size h.isStop

end Standing

/-- A stream that has been started is not started again. -/
theorem start_of_started (h : s.started = true) : start s = .ok () s := by
  show (if s.started then pure () else _ : StreamM σ Unit) s = _
  rw [if_pos h]
  rfl

/-- Starting a stream. -/
theorem answers_start (h : s.Facing x i) : Answers start s fun _ t => t.Standing x i := by
  unfold start
  change Ends _ s _
  rw [ends_get_bind]
  cases h with
  | standing h =>
      rw [if_pos h.started]
      exact fun _ _ => h
  | fresh hreads hstarted hi =>
      rw [if_neg (by simp [hstarted])]
      subst hi
      have hreads' : { s with started := true }.Reads x :=
        ⟨hreads.get, hreads.size_le, hreads.ended, hreads.feeds⟩
      rw [ends_set_bind]
      refine (answers_nextStop hreads' 0).bind ?_
      rintro _ t ⟨rfl, hread, hlt, hlonger⟩
      exact fun _ _ => ⟨⟨hread.get, hread.size_le, hread.ended, hread.feeds⟩, hlonger.started, rfl,
        hlt, x.isStop_stop⟩

/-- **Looking ahead.** -/
theorem answers_ahead (h : s.Facing x i) (k : Nat) :
    Answers (ahead k) s fun a t => a = x.token (x.skip (k - 1) i) ∧ t.Standing x i := by
  unfold ahead
  refine (answers_start h).bind fun _ t ht => ?_
  change Ends _ t _
  rw [ends_get_bind, ht.cursor]
  refine (answers_skipFrom ht.reads ht.lt_size (k - 1)).bind ?_
  rintro _ u ⟨rfl, hread, hlt, hlonger⟩
  refine (answers_tokenAt hread hlt).mono ?_
  rintro _ _ ⟨rfl, rfl⟩
  exact ⟨rfl, ht.longer hread hlonger⟩

/-- **Moving past the current token.** At the end nothing is moved. -/
theorem answers_consume (h : s.Facing x i) :
    Answers consume s fun _ t => t.Standing x (x.stop (i + 1)) := by
  unfold consume
  refine (answers_start h).bind fun _ t ht => ?_
  change Ends _ t _
  rw [ends_get_bind, ht.cursor]
  refine (answers_tokenAt ht.reads ht.lt_size).bind ?_
  rintro _ _ ⟨rfl, rfl⟩
  -- at the end the cursor stays where it is
  by_cases heof : (x.token i).isEof = true
  · rw [if_pos heof]
    rw [x.token_isEof, decide_eq_true_iff] at heof
    have hi : x.stop (i + 1) = i := by
      have := ht.le_size
      rw [x.stop_of_le (by omega)]
      omega
    rw [hi]
    exact .of_pure ht
  · rw [if_neg heof]
    refine (answers_nextStop ht.reads (i + 1)).bind ?_
    rintro _ u ⟨rfl, hread, hlt, hlonger⟩
    exact fun _ _ => ht.moved hread hlonger hlt

/-- **Moving to a place.** -/
theorem answers_seek (h : s.Facing x i) (j : Nat) :
    Answers (seek j) s fun _ t => t.Standing x (x.stop j) := by
  unfold seek
  refine (answers_start h).bind fun _ t ht => ?_
  refine (answers_nextStop ht.reads j).bind ?_
  rintro _ u ⟨rfl, hread, hlt, hlonger⟩
  exact fun _ _ => ht.moved hread hlonger hlt

/-! ## What keeps an operation from answering -/

/-- **An operation fails only where a source fails** that comes of the one that it began with. -/
def Stalls {α : Type} (act : StreamM σ α) (s : Stream σ) : Prop :=
  Ends act s fun o t => TokenSource.Drawn s.source t.source ∧ ∀ a, o = .error a →
    ∃ (source : σ) (e : Error), TokenSource.Drawn s.source source ∧
      (TokenSource.pull source).1 = .error e ∧ a = .error e

/-- What answers and leaves the source alone does not fail. -/
theorem Stalls.of_ok {α : Type} {act : StreamM σ α} {a : α} {t : Stream σ} (h : act s = .ok a t)
    (hsource : t.source = s.source) : Stalls act s := by
  unfold Stalls Ends
  rw [h]
  refine ⟨?_, nofun⟩
  rw [hsource]
  exact .refl

/-- What begins with a source that comes of an earlier one by pulls. -/
theorem Stalls.after {α : Type} {act : StreamM σ α} {source : σ} (h : Stalls act s)
    (hdrawn : TokenSource.Drawn source s.source) :
    Ends act s fun o t => TokenSource.Drawn source t.source ∧ ∀ a, o = .error a →
      ∃ (source' : σ) (e : Error), TokenSource.Drawn source source' ∧
        (TokenSource.pull source').1 = .error e ∧ a = .error e := by
  refine h.mono fun o t ht => ⟨hdrawn.trans ht.1, fun a ha => ?_⟩
  obtain ⟨source', e, hfurther, hfails⟩ := ht.2 a ha
  exact ⟨source', e, hdrawn.trans hfurther, hfails⟩

/-- First one operation, then another. -/
theorem Stalls.bind {α β : Type} {act : StreamM σ α} {next : α → StreamM σ β}
    {mid : α → Stream σ → Prop} (h : Stalls act s) (hmid : Answers act s mid)
    (hnext : ∀ a t, mid a t → Stalls (next a) t) : Stalls (act >>= next) s := by
  refine Ends.bind (Ends.and h hmid) ?_ ?_
  · rintro a t ⟨⟨hdrawn, -⟩, ht⟩
    exact (hnext a t (ht a rfl)).after hdrawn
  · rintro e t ⟨⟨hdrawn, hfails⟩, -⟩
    refine ⟨hdrawn, ?_⟩
    rintro _ ⟨⟩
    exact hfails e rfl

/-- First one operation, whatever it answers, then another. -/
theorem Stalls.bind_any {α β : Type} {act : StreamM σ α} {next : α → StreamM σ β}
    (h : Stalls act s) (hnext : ∀ a t, Stalls (next a) t) : Stalls (act >>= next) s :=
  h.bind ((Ends.self act s).mono fun _ _ _ _ _ => trivial) fun a t _ => hnext a t

/-- Taking tokens. -/
theorem stalls_fetchFrom (i n : Nat) (s : Stream σ) : Stalls (fetchFrom i n) s := by
  induction n generalizing s with
  | zero => exact .of_ok rfl rfl
  | succ n ih =>
      have hpulled : TokenSource.Drawn s.source (TokenSource.pull s.source).2 := .pull .refl
      unfold Stalls Ends fetchFrom
      -- only the source can fail, and it is left as it was found when it does
      cases hpull : TokenSource.pull s.source with
      | mk answer source =>
          rw [hpull] at hpulled
          cases answer with
          | error e =>
              refine ⟨hpulled, ?_⟩
              rintro _ ⟨⟩
              exact ⟨s.source, e, .refl, by rw [hpull], rfl⟩
          | ok t =>
              by_cases hstop : (t.isEof || (decide (i ≤ s.buffer.size) && t.isVisible)) = true
              · simp only [hstop, if_true]
                exact ⟨hpulled, nofun⟩
              · simp only [hstop, if_false, Bool.false_eq_true]
                exact (ih _).after hpulled

/-- Looking for where to read on. -/
theorem stalls_nextStop (i : Nat) (s : Stream σ) : Stalls (nextStop i) s := by
  unfold Stalls Ends nextStop
  cases s.findStop? i with
  | some j => exact ⟨.refl, nofun⟩
  | none =>
      by_cases hended : s.ended = true
      · simp only [hended, if_true]
        exact ⟨.refl, nofun⟩
      · simp only [hended, if_false, Bool.false_eq_true]
        exact stalls_fetchFrom i _ s

/-- Putting the cursor where reading goes on. -/
theorem stalls_moveTo (i : Nat) (s : Stream σ) :
    Stalls (do let cursor ← nextStop i; modify fun s => { s with cursor }) s :=
  (stalls_nextStop i s).bind_any fun _ _ => .of_ok rfl rfl

/-- Starting a stream. -/
theorem stalls_start (s : Stream σ) : Stalls start s := by
  unfold start
  change Ends _ s _
  rw [ends_get_bind]
  by_cases hstarted : s.started = true
  · rw [if_pos hstarted]
    exact ⟨.refl, nofun⟩
  · rw [if_neg hstarted, ends_set_bind]
    exact stalls_moveTo 0 _

/-- Moving to a place. -/
theorem stalls_seek (i : Nat) (s : Stream σ) : Stalls (seek i) s :=
  (stalls_start s).bind_any fun _ t => stalls_moveTo i t

/-- Looking at a token that has been taken. -/
theorem stalls_tokenAt (h : s.Reads x) (hi : i < s.buffer.size) : Stalls (tokenAt i) s := by
  unfold tokenAt
  change Ends _ s _
  rw [ends_get_bind, h.get i hi]
  exact ⟨.refl, nofun⟩

/-- Going on by a number of visible tokens, from one that has been taken. -/
theorem stalls_skipFrom (h : s.Reads x) (hi : i < s.buffer.size) (n : Nat) :
    Stalls (skipFrom n i) s := by
  induction n generalizing s i with
  | zero => exact .of_ok rfl rfl
  | succ n ih =>
      unfold skipFrom
      refine (stalls_tokenAt h hi).bind (answers_tokenAt h hi) ?_
      rintro _ _ ⟨rfl, rfl⟩
      by_cases heof : (x.token i).isEof = true
      · rw [if_pos heof]
        exact .of_ok rfl rfl
      · rw [if_neg heof]
        refine (stalls_nextStop (i + 1) _).bind (answers_nextStop h (i + 1)) ?_
        rintro _ t ⟨rfl, hreads, hlt, -⟩
        exact ih hreads hlt

/-- Looking ahead. -/
theorem stalls_ahead (h : s.Facing x i) (k : Nat) : Stalls (ahead k) s := by
  unfold ahead
  refine (stalls_start s).bind (answers_start h) fun _ t ht => ?_
  change Ends _ t _
  rw [ends_get_bind, ht.cursor]
  refine (stalls_skipFrom ht.reads ht.lt_size (k - 1)).bind
    (answers_skipFrom ht.reads ht.lt_size (k - 1)) ?_
  rintro _ u ⟨rfl, hread, hlt, -⟩
  exact stalls_tokenAt hread hlt

/-- Moving past the current token. -/
theorem stalls_consume (h : s.Facing x i) : Stalls consume s := by
  unfold consume
  refine (stalls_start s).bind (answers_start h) fun _ t ht => ?_
  change Ends _ t _
  rw [ends_get_bind, ht.cursor]
  refine (stalls_tokenAt ht.reads ht.lt_size).bind (answers_tokenAt ht.reads ht.lt_size) ?_
  rintro _ _ ⟨rfl, rfl⟩
  by_cases heof : (x.token i).isEof = true
  · rw [if_pos heof]
    exact .of_ok rfl rfl
  · rw [if_neg heof]
    exact stalls_moveTo _ _

end Stream

end TreeProjection
