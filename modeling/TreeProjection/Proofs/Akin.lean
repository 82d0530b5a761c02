import TreeProjection.Proofs.Erasing
import TreeProjection.Proofs.Fetching
import TreeProjection.Proofs.Renumbering

/-! # The same state, but for what lies ahead

Two parsers are in the same state, but from one of the sources more tokens have been taken, and exceptions carry other
numbers.  The tokens that have been taken ahead make no difference to what is read, as long as the source does not fail;
only the text between two tokens reaches no further than what has been taken, so that it is asked for tokens that have
come into view.

* `Extent` — how much has come into view.
* `Stream.Poised` — a stream at a place of a tape, over a source that does not fail.
* `Parser.Akin` — two parsers in the same state, but for what is taken ahead and for numbers.
* `Parser.Concurs` — two actions that do the same from there. -/

namespace TreeProjection

variable {σ α β γ : Type}

/-! ## What has come into view -/

/-- **How much has come into view**: how many tokens have been taken, at least, and how many exceptions have been
numbered. -/
structure Extent where
  /-- Tokens. -/
  tokens : Nat
  /-- Exceptions. -/
  exceptions : Nat

namespace Extent

/-- More has come into view. -/
instance : LE Extent := ⟨fun v w => v.tokens ≤ w.tokens ∧ v.exceptions ≤ w.exceptions⟩

variable {v w w' : Extent}

/-- Nothing more has come into view. -/
theorem le_refl (w : Extent) : w ≤ w := ⟨Nat.le_refl _, Nat.le_refl _⟩

/-- First more has come into view, then still more. -/
theorem le_trans (h : v ≤ w) (h' : w ≤ w') : v ≤ w' := ⟨Nat.le_trans h.1 h'.1, Nat.le_trans h.2 h'.2⟩

/-- **A token has come into view**, unless it is made up. -/
def Shows (w : Extent) (t : Token) : Prop := ∀ i, t.index = some i → i < w.tokens

/-- **An exception has come into view**: its number has been given, and its token has been taken. -/
structure Knows (w : Extent) (e : RecognitionException) : Prop where
  /-- The number has been given. -/
  id : e.id < w.exceptions
  /-- Some token has been taken. -/
  begun : 0 < w.tokens
  /-- Its own has been, unless it is made up. -/
  offending : w.Shows e.offending

/-- A renumbering leaves the numbers that have been given as they are. -/
def Fixes (w : Extent) (f : Nat → Nat) : Prop := ∀ i, i < w.exceptions → f i = i

/-- What has come into view stays in view. -/
theorem Shows.mono {t : Token} (h : v.Shows t) (hle : v ≤ w) : w.Shows t :=
  fun i hi => Nat.lt_of_lt_of_le (h i hi) hle.1

/-- What has come into view stays in view. -/
theorem Knows.mono {e : RecognitionException} (h : v.Knows e) (hle : v ≤ w) : w.Knows e where
  id := Nat.lt_of_lt_of_le h.id hle.2
  begun := Nat.lt_of_lt_of_le h.begun hle.1
  offending := h.offending.mono hle

/-- An exception whose number is left as it is stays the same. -/
theorem Knows.renumber {e : RecognitionException} {f : Nat → Nat} (h : w.Knows e) (hf : w.Fixes f) :
    e.renumber f = e := by
  rw [RecognitionException.renumber, hf e.id h.id]

end Extent

/-! ## Streams at the same place -/

namespace Stream

variable [TokenSource σ] {calm : σ → Prop} {x : Tape} {s t : Stream σ} {i j m n : Nat}

/-- **A stream at a place of a tape**, with at least so many tokens taken, over a source that does not fail. -/
structure Poised (calm : σ → Prop) (x : Tape) (m i : Nat) (s : Stream σ) : Prop where
  /-- It is to be read from there. -/
  facing : s.Facing x i
  /-- Before it is started it is at the very beginning. -/
  origin : s.started = false → s.cursor = 0
  /-- The source does not fail. -/
  calm : calm s.source
  /-- So many tokens have been taken. -/
  taken : m ≤ s.buffer.size
  /-- If any have been, it has been started. -/
  begun : 0 < m → s.started = true

/-- A stream that stands at a place. -/
theorem Standing.poised (h : s.Standing x i) (hcalm : calm s.source) (htaken : m ≤ s.buffer.size) :
    s.Poised calm x m i :=
  ⟨.standing h, fun hfresh => absurd (h.started.symm.trans hfresh) nofun, hcalm, htaken, fun _ => h.started⟩

omit [TokenSource σ] in
/-- Tokens that have been taken stay taken. -/
theorem stable_taken (m : Nat) : Stable fun s : Stream σ => m ≤ s.buffer.size where
  source _ _ h := h
  push s t h := by
    simp only [push, Array.size_push]
    exact Nat.le_succ_of_le h
  cursor _ _ h := h
  started _ h := h

/-- A token ahead has been taken. -/
theorem answers_ahead_mem (k : Nat) (s : Stream σ) : Answers (ahead k) s fun a t =>
    ∃ j : Nat, (t : Stream σ).buffer[j]? = some a := by
  have hany : ∀ {δ : Type} (act : StreamM σ δ) (s : Stream σ), Answers act s fun _ _ => True :=
    fun act s => (Ends.self act s).mono fun _ _ _ _ _ => trivial
  refine (hany start s).bind fun _ t _ => ?_
  change Ends (get >>= _) t _
  rw [ends_get_bind]
  refine (hany (skipFrom (k - 1) t.cursor) t).bind fun j u _ => ?_
  change Ends (get >>= _) u _
  rw [ends_get_bind]
  cases hget : u.buffer[j]? with
  | none => exact nofun
  | some a =>
      rintro _ ⟨⟩
      exact ⟨j, hget⟩

namespace Poised

variable (hsteady : TokenSource.Steady calm)

/-- The cursor stands there, once any token has been taken. -/
theorem standing (h : s.Poised calm x m i) (hm : 0 < m) : s.Standing x i := by
  cases h.facing with
  | standing hs => exact hs
  | fresh _ hfresh _ => exact absurd ((h.begun hm).symm.trans hfresh) nofun

/-- The cursor is not past the place. -/
theorem cursor_le (h : s.Poised calm x m i) : s.cursor ≤ i := by
  cases h.facing with
  | standing hs => exact Nat.le_of_eq hs.cursor
  | fresh _ hfresh _ =>
      rw [h.origin hfresh]
      exact Nat.zero_le i

/-- There is enough to go by until the end. -/
theorem size_lt (h : s.Poised calm x m i) :
    x.size - i < s.buffer.size - s.cursor + TokenSource.bound s.source + 1 := by
  have hbound := h.facing.reads.size_le_bound
  have hcursor := h.cursor_le
  omega

include hsteady

/-- Where the source does not fail, an operation answers. -/
theorem answers {act : StreamM σ α} {post : α → Stream σ → Prop} (h : s.Poised calm x m i) (hstalls : Stalls act s)
    (htaken : Ends act s fun _ t => m ≤ t.buffer.size) (hact : Answers act s post) :
    Ends act s fun o t => ∃ a, o = .ok a ∧ post a t ∧ calm t.source ∧ m ≤ t.buffer.size := by
  apply ((hstalls.and htaken).and hact).mono
  rintro (e | a) t ⟨⟨⟨hdrawn, hfails⟩, hm⟩, hpost⟩
  · obtain ⟨source, failure, hfurther, hpull, -⟩ := hfails e rfl
    obtain ⟨token, htoken⟩ := (hsteady.pull source (hsteady.drawn hfurther h.calm)).1
    cases htoken.symm.trans hpull
  · exact ⟨a, rfl, hpost a rfl, hsteady.drawn hdrawn h.calm, hm⟩

/-- **Looking ahead.** The token has been taken by then. -/
theorem ahead (h : s.Poised calm x m i) (k : Nat) : Ends (ahead k) s fun o t =>
    o = .ok (x.token (x.skip (k - 1) i)) ∧ t.Poised calm x (max m (min (x.skip (k - 1) i) x.size + 1)) i := by
  apply (h.answers hsteady (stalls_ahead h.facing k) ((stable_taken m).ahead k h.taken)
    ((answers_ahead h.facing k).and (answers_ahead_mem k s))).mono
  rintro _ t ⟨_, rfl, ⟨⟨rfl, hstanding⟩, j, hj⟩, hcalm, hm⟩
  have hlt := (Array.getElem?_eq_some_iff.mp hj).1
  have htoken := (hstanding.reads.get j hlt).symm.trans hj
  have hindex := congrArg Token.index (Option.some.inj htoken)
  simp only [Tape.token_index, Option.some.injEq] at hindex
  exact ⟨rfl, hstanding.poised hcalm (by omega)⟩

/-- **Moving past the current token.** -/
theorem consume (h : s.Poised calm x m i) : Ends consume s fun o t =>
    o = .ok () ∧ t.Poised calm x m (x.stop (i + 1)) := by
  apply (h.answers hsteady (stalls_consume h.facing) ((stable_taken m).consume h.taken)
    (answers_consume h.facing)).mono
  rintro _ t ⟨⟨⟩, rfl, hstanding, hcalm, hm⟩
  exact ⟨rfl, hstanding.poised hcalm hm⟩

/-- **Moving to a place.** -/
theorem seek (h : s.Poised calm x m i) (j : Nat) : Ends (seek j) s fun o t =>
    o = .ok () ∧ t.Poised calm x m (x.stop j) := by
  apply (h.answers hsteady (stalls_seek j s) ((stable_taken m).seek j h.taken) (answers_seek h.facing j)).mono
  rintro _ t ⟨⟨⟩, rfl, hstanding, hcalm, hm⟩
  exact ⟨rfl, hstanding.poised hcalm hm⟩

omit hsteady

/-- Before the first place to stop at there is nothing to look back at. -/
theorem behind?_first (h : s.Standing x (x.stop 0)) (k : Nat) : s.behind? k = none := by
  cases k with
  | zero => rfl
  | succ n =>
      have hle := Nat.le_of_lt h.lt_size
      -- what lies before it is hidden, since a visible token would have been a place to stop at
      have hnone : (s.buffer.toList.take (x.stop 0)).filter Token.isVisible = [] := by
        rw [List.filter_eq_nil_iff]
        intro t ht
        obtain ⟨j, hj, rfl⟩ := List.mem_iff_getElem.mp ht
        rw [List.length_take, Array.length_toList] at hj
        have hget := h.reads.get j (by omega)
        rw [Array.getElem?_eq_getElem (by omega), Option.some.injEq] at hget
        have hnot := x.not_isStop_of_lt_stop (Nat.zero_le j) (by omega : j < x.stop 0)
        simp only [isStop, Bool.or_eq_false_iff] at hnot
        simp [hget, hnot.1]
      rw [Stream.behind?, h.cursor, visibleBefore?_eq s n _ hle, hnone]
      rfl

/-- **Looking back** is the same from the same place. -/
theorem behind?_eq (h : s.Poised calm x m i) (h' : t.Poised calm x n i) (k : Nat) : s.behind? k = t.behind? k := by
  have hfresh : ∀ {s : Stream σ} {m : Nat}, s.Poised calm x m i → s.started = false → s.behind? k = none := by
    intro s m hs hstarted
    cases k with
    | zero => rfl
    | succ n =>
        rw [Stream.behind?, hs.origin hstarted]
        cases n <;> rfl
  -- a stream that has not been started has nothing behind it, just as one that stands at its first place
  rcases h.facing with hs | ⟨-, hstarted, hi⟩
  · rcases h'.facing with ht | ⟨-, hstarted', hi'⟩
    · rw [hs.behind?_eq, ht.behind?_eq]
    · subst hi'
      rw [behind?_first hs, hfresh h' hstarted']
  · subst hi
    rcases h'.facing with ht | ⟨-, hstarted', -⟩
    · rw [hfresh h hstarted, behind?_first ht]
    · rw [hfresh h hstarted, hfresh h' hstarted']

/-- **The text up to a token** that has been taken is the same. -/
theorem textBetween_eq (h : s.Poised calm x m i) (h' : t.Poised calm x m j) (first : Nat) {last : Nat} (hlast : last < m) :
    s.textBetween first last = t.textBetween first last := by
  have htake : ∀ {s : Stream σ} {i : Nat}, s.Poised calm x m i →
      s.buffer.toList.take (last + 1) = x.listed.take (last + 1) := by
    intro s i hs
    have htaken := hs.taken
    rw [hs.facing.reads.toList_buffer, List.take_take, Nat.min_eq_left (by omega)]
  unfold Stream.textBetween
  rw [htake h, htake h']

end Poised

end Stream

/-! ## Parsers in the same state -/

namespace Parser

variable [TokenSource σ] {calm : σ → Prop} {x : Tape} {f : Nat → Nat} {w w' : Extent} {i j : Nat}
  {p q p' q' : Parser σ}

/-- **Two parsers in the same state** but for the tokens that have been taken ahead and for the numbers of exceptions. So
much has come into view on both sides. -/
structure Akin (calm : σ → Prop) (x : Tape) (f : Nat → Nat) (w : Extent) (i : Nat) (p q : Parser σ) : Prop where
  /-- The first one's input is at a place of the tape. -/
  left : p.input.Poised calm x w.tokens i
  /-- The other one's input is at the same place. -/
  right : q.input.Poised calm x w.tokens i
  /-- So many numbers have been given. -/
  given : w.exceptions ≤ p.nextException
  /-- All exceptions carry numbers that have been given. -/
  numbered : p.Numbered
  /-- Numbers yet to be given belong together. -/
  numbers : ∀ k, f (p.nextException + k) = q.nextException + k
  /-- All the rest is the same up to numbers. -/
  same : q = { p.renumber f with input := q.input, nextException := q.nextException }

namespace Akin

/-- The other parser is the first one but for its input and for numbers. -/
theorem exists_eq (h : Akin calm x f w i p q) :
    ∃ s n, q = { p.renumber f with input := s, nextException := n } := ⟨_, _, h.same⟩

/-- What depends on neither is the same. -/
theorem congr (h : Akin calm x f w i p q) (g : Parser σ → γ)
    (hg : ∀ f (p : Parser σ) s n, g { p.renumber f with input := s, nextException := n } = g p) : g q = g p := by
  rw [h.same]
  exact hg f p _ _

/-- **A change on both sides** that touches neither the input nor what numbers are given.  What is changed may depend on
the numbers of exceptions that have come into view. -/
theorem change (h : Akin calm x f w i p q) (g : Parser σ → Parser σ) (G : (Nat → Nat) → Parser σ → Parser σ)
    (hinput : ∀ p, (g p).input = p.input) (hnumber : ∀ p, (g p).nextException = p.nextException)
    (hG : ∀ f (p : Parser σ) s n, G f { p.renumber f with input := s, nextException := n } =
      { (g p).renumber f with input := s, nextException := n })
    (hknown : ∀ f, w.Fixes f → ∀ p, G f p = g p) : Akin calm x f w i (g p) (G f q) := by
  obtain ⟨hleft, hright, hgiven, hnumbered, hnumbers, hsame⟩ := h
  have hq : G f q = { (g p).renumber f with input := q.input, nextException := q.nextException } := by
    rw [hsame]
    exact hG f p _ _
  refine ⟨?_, ?_, ?_, ?_, ?_, ?_⟩
  · rwa [hinput]
  · rwa [hq]
  · rwa [hnumber]
  · intro e he
    rw [hnumber] at he
    -- the numbers that have come into view are among those that are left as they are
    have hfixed := hknown e (fun k hk => he k (Nat.lt_of_lt_of_le hk hgiven)) p
    have hcomm := hG e p p.input p.nextException
    have hself : ({ p.renumber e with input := p.input, nextException := p.nextException } : Parser σ) = p := by
      have hp := hnumbered e he
      rw [hp]
    rw [hself, hfixed] at hcomm
    calc (g p).renumber e
        = { (g p).renumber e with input := (g p).input, nextException := (g p).nextException } := rfl
      _ = g p := by rw [hinput, hnumber]; exact hcomm.symm
  · intro k
    rw [hnumber, hq]
    exact hnumbers k
  · rw [hq]

/-- The same change on both sides. -/
theorem change_both (h : Akin calm x f w i p q) (g : Parser σ → Parser σ)
    (hinput : ∀ p, (g p).input = p.input) (hnumber : ∀ p, (g p).nextException = p.nextException)
    (hg : ∀ f (p : Parser σ) s n, g { p.renumber f with input := s, nextException := n } =
      { (g p).renumber f with input := s, nextException := n }) : Akin calm x f w i (g p) (g q) :=
  h.change g (fun _ => g) hinput hnumber hg fun _ _ _ => rfl

/-- Both have been read. -/
theorem read (h : Akin calm x f w i p q) {s t : Stream σ} {m : Nat} (hs : s.Poised calm x m j)
    (ht : t.Poised calm x m j) :
    Akin calm x f { w with tokens := m } j { p with input := s } { q with input := t } where
  left := hs
  right := ht
  given := h.given
  numbered e he := by
    have hp := h.numbered e he
    exact congrArg (fun p : Parser σ => { p with input := s }) hp
  numbers := h.numbers
  same := by
    rw [h.same]
    rfl

end Akin

/-! ## Actions that do the same -/

/-- **Two actions have ended in the same way**, up to the numbers of exceptions. -/
inductive Matching (f : Nat → Nat) (w : Extent) (R : Extent → α → β → Prop) :
    Except Interrupt α → Except Interrupt β → Prop where
  /-- Both have answered. -/
  | ok {a : α} {b : β} (h : R w a b) : Matching f w R (.ok a) (.ok b)
  /-- Both have failed with an exception that has come into view. -/
  | failed {e : RecognitionException} (h : w.Knows e) :
    Matching f w R (.error (.recognition e)) (.error (.recognition (e.renumber f)))
  /-- Both have given the parse up, for the same reason. -/
  | stopped (a : Abort) : Matching f w R (.error (.abort a)) (.error (.abort a))

/-- **Two actions have ended in the same way, in the same state.** More may have come into view. -/
def Joint (calm : σ → Prop) (x : Tape) (f : Nat → Nat) (w : Extent) (R : Extent → α → β → Prop)
    (o : Except Interrupt α) (p : Parser σ) (o' : Except Interrupt β) (q : Parser σ) : Prop :=
  ∃ w' i, w ≤ w' ∧ Akin calm x f w' i p q ∧ Matching f w' R o o'

/-- **Two actions that do the same** from all such states, once so much has come into view. -/
def Concurs (calm : σ → Prop) (x : Tape) (f : Nat → Nat) (w : Extent) (R : Extent → α → β → Prop)
    (a : ParserM σ α) (b : ParserM σ β) : Prop :=
  ∀ w' i p q, w ≤ w' → Akin calm x f w' i p q →
    Ends a p fun o p' => Ends b q fun o' q' => Joint calm x f w' R o p' o' q'

/-- The same answer. -/
def Same (_ : Extent) (a b : α) : Prop := a = b

/-- The same token, which has come into view unless it is made up. -/
def SameToken (w : Extent) (t u : Token) : Prop := t = u ∧ w.Shows t

/-- The same token, if any, which has come into view unless it is made up. -/
def SameMatch (w : Extent) (t u : Option Token) : Prop := t = u ∧ ∀ v ∈ t, w.Shows v

/-- The same token, which has come into view. -/
def SameTaken (w : Extent) (t u : Token) : Prop := t = u ∧ w.Shows t ∧ 0 < w.tokens

section

variable {α' β' : Type} {R : Extent → α → α' → Prop} {S : Extent → β → β' → Prop} {a : ParserM σ α} {b : ParserM σ α'}

/-- More has come into view since. -/
theorem Joint.after {o : Except Interrupt α} {o' : Except Interrupt α'} (h : Joint calm x f w' R o p o' q)
    (hle : w ≤ w') : Joint calm x f w R o p o' q := by
  obtain ⟨w'', i, hle', hrest⟩ := h
  exact ⟨w'', i, Extent.le_trans hle hle', hrest⟩

/-- Ending in the same state. -/
theorem Akin.joint {o : Except Interrupt α} {o' : Except Interrupt α'} (h : Akin calm x f w i p q)
    (hmatch : Matching f w R o o') : Joint calm x f w R o p o' q :=
  ⟨w, i, w.le_refl, h, hmatch⟩

/-- Failures are handed on. -/
theorem Matching.of_error {i j : Interrupt} (h : Matching f w R (.error i) (.error j)) :
    Matching f w S (.error i) (.error j) := by
  cases h with
  | failed he => exact .failed he
  | stopped a => exact .stopped a

/-- What has ended in the same way has done so when more has come into view. -/
theorem Matching.mono {o : Except Interrupt α} {o' : Except Interrupt α} (h : Matching f w Same o o') (hle : w ≤ w') :
    Matching f w' Same o o' := by
  cases h with
  | ok h => exact .ok h
  | failed he => exact .failed (he.mono hle)
  | stopped a => exact .stopped a

namespace Concurs

/-- What does the same still does when more has come into view. -/
theorem later (h : Concurs calm x f w R a b) (hle : w ≤ w') : Concurs calm x f w' R a b :=
  fun w'' i p q hle' => h w'' i p q (Extent.le_trans hle hle')

/-- Answers may be compared in less detail. -/
theorem mono {R' : Extent → α → α' → Prop} (h : Concurs calm x f w R a b) (hR : ∀ w u v, R w u v → R' w u v) :
    Concurs calm x f w R' a b := by
  intro w' i p q hle hpq
  apply (h w' i p q hle hpq).mono
  intro o p' ho
  apply Ends.mono ho
  rintro o' q' ⟨w'', j, hle', hakin, hmatch⟩
  refine ⟨w'', j, hle', hakin, ?_⟩
  cases hmatch with
  | ok h => exact .ok (hR _ _ _ h)
  | failed he => exact .failed he
  | stopped a => exact .stopped a

/-- **One action after the other.** -/
theorem bind {next : α → ParserM σ β} {next' : α' → ParserM σ β'} (h : Concurs calm x f w R a b)
    (hnext : ∀ w' u v, w ≤ w' → R w' u v → Concurs calm x f w' S (next u) (next' v)) :
    Concurs calm x f w S (a >>= next) (b >>= next') := by
  intro w₁ i p q hle hpq
  refine Ends.bind (h w₁ i p q hle hpq) (fun u p' ho => ?_) fun e p' ho => ?_
  -- both first actions answer or both fail, since no match relates an answer to an exception
  · cases hb : b q with
    | ok v q' =>
        obtain ⟨w₂, j, hle', hakin, hmatch⟩ := ho.of_ok hb
        cases hmatch with
        | ok hR =>
            apply (hnext w₂ u v (Extent.le_trans hle hle') hR w₂ j p' q' w₂.le_refl hakin).mono
            intro o p'' ho'
            exact (Ends.bind_of_ok hb).mpr (Ends.mono ho' fun _ _ h => h.after hle')
    | error e q' =>
        obtain ⟨_, _, -, -, hmatch⟩ := ho.of_error hb
        cases hmatch
  · cases hb : b q with
    | ok v q' =>
        obtain ⟨_, _, -, -, hmatch⟩ := ho.of_ok hb
        cases hmatch
    | error e q' =>
        obtain ⟨w₂, j, hle', hakin, hmatch⟩ := ho.of_error hb
        exact (Ends.bind_of_error hb).mpr ⟨w₂, j, hle', hakin, hmatch.of_error⟩

/-- One action after the other, where it makes no difference what the first one answers. -/
theorem seq {a b : ParserM σ Unit} {next : Unit → ParserM σ β} {next' : Unit → ParserM σ β'}
    {T : Extent → Unit → Unit → Prop} (h : Concurs calm x f w T a b)
    (hnext : ∀ w', w ≤ w' → Concurs calm x f w' S (next ()) (next' ())) :
    Concurs calm x f w S (a >>= next) (b >>= next') :=
  h.bind fun w' _ _ hle _ => hnext w' hle

/-- The same choice on both sides. -/
theorem ite {a' : ParserM σ α} {b' : ParserM σ α'} {c c' : Bool} (hc : c = c') (h : Concurs calm x f w R a b)
    (h' : Concurs calm x f w R a' b') : Concurs calm x f w R (if c then a else a') (if c' then b else b') := by
  subst hc
  cases c with
  | true => exact h
  | false => exact h'

/-- **What comes after an action that is observed.** -/
theorem observe_bind {next : Except Interrupt α → ParserM σ β} {next' : Except Interrupt α' → ParserM σ β'}
    (h : Concurs calm x f w R a b)
    (hnext : ∀ w' o o', w ≤ w' → Matching f w' R o o' → Concurs calm x f w' S (next o) (next' o')) :
    Concurs calm x f w S (observe a >>= next) (observe b >>= next') := by
  have hobserved : Concurs calm x f w (fun w o o' => Matching f w R o o') (observe a) (observe b) := by
    intro w' i p q hle hpq
    apply ends_observe
    apply (h w' i p q hle hpq).mono
    intro o p' ho
    apply ends_observe
    apply Ends.mono ho
    rintro o' q' ⟨w'', j, hle', hakin, hmatch⟩
    exact ⟨w'', j, hle', hakin, .ok hmatch⟩
  exact hobserved.bind hnext

end Concurs

/-- Answering. -/
theorem concurs_pure {u : α} {v : α'} (h : ∀ w', w ≤ w' → R w' u v) :
    Concurs calm x f w R (pure u : ParserM σ α) (pure v) :=
  fun w' _ _ _ hle hpq => hpq.joint (.ok (h w' hle))

/-- Giving the parse up. -/
theorem concurs_giveUp (abort : Abort) : Concurs calm x f w R (giveUp abort : ParserM σ α) (giveUp abort) :=
  fun _ _ _ _ _ hpq => hpq.joint (.stopped abort)

/-- Ending the way an observed action has ended. -/
theorem concurs_release {o o' : Except Interrupt α} (h : Matching f w Same o o') :
    Concurs calm x f w Same (release o : ParserM σ α) (release o') := by
  intro w' i p q hle hpq
  rw [ends_release, ends_release]
  exact hpq.joint (h.mono hle)

/-- Looking at the state. -/
theorem concurs_get {next : Parser σ → ParserM σ β} {next' : Parser σ → ParserM σ β'}
    (h : ∀ w' i p q, w ≤ w' → Akin calm x f w' i p q → Concurs calm x f w' S (next p) (next' q)) :
    Concurs calm x f w S (get >>= next) (get >>= next') :=
  fun w' i p q hle hpq => h w' i p q hle hpq w' i p q w'.le_refl hpq

/-- Changing the state. -/
theorem concurs_modify {g g' : Parser σ → Parser σ}
    (h : ∀ w' i p q, w ≤ w' → Akin calm x f w' i p q → Akin calm x f w' i (g p) (g' q)) :
    Concurs calm x f w Same (modify g) (modify g') :=
  fun w' i p q hle hpq => (h w' i p q hle hpq).joint (.ok rfl)

/-- An answer that only a broken contract can keep from being given. -/
theorem concurs_orBroken (answer : Except Violation α) :
    Concurs calm x f w Same (orBroken answer : ParserM σ α) (orBroken answer) := by
  cases answer with
  | ok a => exact concurs_pure fun _ _ => rfl
  | error v => exact concurs_giveUp _

end

/-! ## What does not touch the input -/

/-- Writing something down in which all numbers have come into view. -/
theorem concurs_note {n n' : Note} (hn : n' = n.renumber f) (hknown : ∀ e, w.Fixes e → n.renumber e = n) :
    Concurs calm x f w Same (note n : ParserM σ Unit) (note n') := by
  subst hn
  apply concurs_modify
  intro w' i p q hle hpq
  apply hpq.change (fun p => { p with journal := p.journal.push n })
    (fun e p => { p with journal := p.journal.push (n.renumber e) }) (fun _ => rfl) (fun _ => rfl)
  · intro e p s k
    simp only [renumber, Array.map_push]
  · intro e he p
    rw [hknown e fun k hk => he k (Nat.lt_of_lt_of_le hk hle.2)]

/-- Calling a hook. -/
theorem concurs_hooked (h : Hook) {R : Extent → α → β → Prop} {denied act : ParserM σ α} {denied' act' : ParserM σ β}
    (hdenied : Concurs calm x f w R denied denied') (hact : Concurs calm x f w R act act') :
    Concurs calm x f w R (hooked h denied act) (hooked h denied' act') := by
  apply concurs_get
  intro w' i p q hle hpq
  obtain ⟨s, n, rfl⟩ := hpq.exists_eq
  have hbody : ∀ w', w ≤ w' → Concurs calm x f w' R (if p.strategy.allows h then act else denied)
      (if p.strategy.allows h then act' else denied') := fun w' hle => .ite rfl (hact.later hle) (hdenied.later hle)
  exact .ite rfl (.seq (concurs_note rfl fun _ _ => rfl) fun w'' hle' => hbody w'' (Extent.le_trans hle hle'))
    (hbody w' hle)

/-- Holding reports back. -/
theorem concurs_beginErrorCondition : Concurs calm x f w Same (beginErrorCondition : ParserM σ Unit) beginErrorCondition :=
  concurs_hooked _ (concurs_pure fun _ _ => rfl) <| concurs_modify fun _ _ _ _ _ hpq =>
    hpq.change_both (fun p => { p with recovery.inRecovery := true }) (fun _ => rfl) (fun _ => rfl) fun _ _ _ _ => rfl

/-- No longer holding reports back. -/
theorem concurs_endErrorCondition : Concurs calm x f w Same (endErrorCondition : ParserM σ Unit) endErrorCondition :=
  concurs_hooked _ (concurs_pure fun _ _ => rfl) <| concurs_modify fun _ _ _ _ _ hpq =>
    hpq.change_both (fun p => { p with recovery := {} }) (fun _ => rfl) (fun _ => rfl) fun _ _ _ _ => rfl

/-- A leaf has been added on both sides. -/
theorem Akin.addLeaf (hpq : Akin calm x f w i p q) (leaf : ParseNode) (hleaf : ∀ e, leaf.renumber e = leaf) :
    Akin calm x f w i { p with tree := (p.tree.push p.currentNode? leaf).2 }
      { q with tree := (q.tree.push q.currentNode? leaf).2 } := by
  apply hpq.change_both (fun p => { p with tree := (p.tree.push p.currentNode? leaf).2 }) (fun _ => rfl) fun _ => rfl
  intro e p s n
  have hpush := p.tree.renumber_push (f := e) p.currentNode? leaf
  rw [hleaf] at hpush
  change ({ p.renumber e with
    input := s, nextException := n, tree := ((p.tree.renumber e).push p.currentNode? leaf).2 } : Parser σ) = _
  rw [hpush]
  rfl

/-- Adding a leaf. -/
theorem concurs_addLeaf {leaf : ParseNode} (hleaf : ∀ e, leaf.renumber e = leaf) :
    Concurs calm x f w Same (addLeaf leaf : ParserM σ Unit) (addLeaf leaf) :=
  concurs_modify fun _ _ _ _ _ hpq => hpq.addLeaf leaf hleaf

/-- Adding an error leaf. -/
theorem concurs_addErrorLeaf (t : Token) :
    Concurs calm x f w Same (addErrorLeaf t : ParserM σ Unit) (addErrorLeaf t) := by
  apply concurs_get
  intro w' i p q hle hpq
  obtain ⟨s, n, rfl⟩ := hpq.exists_eq
  exact .ite rfl (concurs_pure fun _ _ => rfl) (concurs_addLeaf fun _ => rfl)

/-- The same exception with another number, which has come into view. -/
def Renamed (f : Nat → Nat) (w : Extent) (e e' : RecognitionException) : Prop := e' = e.renumber f ∧ w.Knows e

/-- **A new exception** at a token that has come into view. -/
theorem concurs_newException (kind : ExceptionKind) {offending : Token} (hshown : w.Shows offending)
    (hbegun : 0 < w.tokens) (expected : TokenSet) :
    Concurs calm x f w (Renamed f) (newException kind offending expected : ParserM σ RecognitionException)
      (newException kind offending expected) := by
  intro w' i p q hle hpq
  obtain ⟨s, n, rfl⟩ := hpq.exists_eq
  have hnumber : f p.nextException = n := hpq.numbers 0
  have hgiven : w'.exceptions ≤ p.nextException := hpq.given
  refine ⟨{ w' with exceptions := p.nextException + 1 }, i, ⟨Nat.le_refl _, Nat.le_succ_of_le hgiven⟩, ?_, .ok ⟨?_, ?_⟩⟩
  -- the exceptions given out so far are numbered as before, and those to come from one further on
  · refine ⟨hpq.left, hpq.right, Nat.le_refl _, ?_, ?_, rfl⟩
    · intro e he
      have hp := hpq.numbered e fun k hk => he k (Nat.lt_succ_of_lt hk)
      exact congrArg (fun p' : Parser σ => { p' with nextException := p.nextException + 1 }) hp
    · intro k
      have hk := hpq.numbers (k + 1)
      change f (p.nextException + 1 + k) = n + 1 + k
      change f (p.nextException + (k + 1)) = n + (k + 1) at hk
      rw [Nat.add_right_comm, Nat.add_assoc, hk, Nat.add_right_comm, Nat.add_assoc]
  · change _ = ({ id := f p.nextException, .. } : RecognitionException)
    rw [hnumber]
    rfl
  · exact ⟨Nat.lt_succ_self _, Nat.lt_of_lt_of_le hbegun hle.1, fun k hk => Nat.lt_of_lt_of_le (hshown k hk) hle.1⟩

/-- **Failing with a new exception** at a token that has come into view. -/
theorem concurs_fail {R : Extent → α → β → Prop} (kind : ExceptionKind) {offending : Token}
    (hshown : w.Shows offending) (hbegun : 0 < w.tokens) (expected : TokenSet) :
    Concurs calm x f w R (do throw (.recognition (← newException kind offending expected)) : ParserM σ α)
      (do throw (.recognition (← newException kind offending expected))) := by
  apply (concurs_newException kind hshown hbegun expected).bind
  rintro w' e _ _ ⟨rfl, he⟩ w'' i p q hle hpq
  exact hpq.joint (.failed (he.mono hle))

omit [TokenSource σ] in
/-- To report is to count an error, and then to tell those who listen. -/
theorem report_eq (t : Token) (message : String) (e : Option RecognitionException) :
    (report t message e : ParserM σ Unit) =
      modify (fun p => { p with syntaxErrors := p.syntaxErrors + 1 }) >>= fun _ => get >>= fun p =>
        if 0 < p.listeners then note (.report p.listeners ⟨t, t.line, t.column, message, e⟩) else pure () := by
  funext p
  rfl

/-- **Telling the listeners** of an error. -/
theorem concurs_report (t : Token) (message : String) {e e' : Option RecognitionException}
    (he : e' = e.map (·.renumber f)) (hknown : ∀ e₁ ∈ e, w.Knows e₁) :
    Concurs calm x f w Same (report t message e : ParserM σ Unit) (report t message e') := by
  rw [report_eq, report_eq]
  have hcounted : Concurs calm x f w Same
      (modify fun p => { p with syntaxErrors := p.syntaxErrors + 1 } : ParserM σ PUnit)
      (modify fun p => { p with syntaxErrors := p.syntaxErrors + 1 }) :=
    concurs_modify fun _ _ _ _ _ hpq => hpq.change_both (fun p => { p with syntaxErrors := p.syntaxErrors + 1 })
      (fun _ => rfl) (fun _ => rfl) fun _ _ _ _ => rfl
  apply hcounted.seq
  intro w₁ hle
  apply concurs_get
  intro w₂ i p q hle' hpq
  obtain ⟨s, n, rfl⟩ := hpq.exists_eq
  change Concurs calm x f w₂ Same (if 0 < p.listeners then _ else _) (if 0 < p.listeners then _ else _)
  -- only with a listener is there a note, and the exception in it has been given out already
  by_cases hl : 0 < p.listeners
  · rw [if_pos hl, if_pos hl]
    apply concurs_note
    · rw [he]
      rfl
    · intro g hg
      have hsame : e.map (·.renumber g) = e := by
        cases e with
        | none => rfl
        | some e₁ =>
            have hknows := (hknown e₁ rfl).mono (Extent.le_trans hle hle')
            exact congrArg some (hknows.renumber hg)
      simp only [Note.renumber, Report.renumber, hsame]
  · rw [if_neg hl, if_neg hl]
    exact concurs_pure fun _ _ => rfl

/-- The text up to a token that has come into view is the same. -/
theorem Akin.textBetween (h : Akin calm x f w i p q) (first : Token) {last : Token} (hlast : w.Shows last) :
    q.textBetween first last = p.textBetween first last := by
  unfold Parser.textBetween
  cases first.index with
  | none => rfl
  | some k =>
      cases hindex : last.index with
      | none => rfl
      | some j => exact (h.left.textBetween_eq h.right k (hlast j hindex)).symm

/-- The text of a report for an exception does not show its number. -/
theorem Akin.exceptionMessage (h : Akin calm x f w i p q) {e : RecognitionException} (he : w.Knows e) :
    q.exceptionMessage (e.renumber f) = p.exceptionMessage e := by
  have hlanguage : q.language = p.language := by
    rw [h.same]
    rfl
  obtain ⟨id, kind, offending, expected, rule⟩ := e
  unfold Parser.exceptionMessage
  rw [hlanguage]
  cases kind with
  | inputMismatch => rfl
  | failedPredicate text => rfl
  | noViableAlt start =>
      have htext := h.textBetween start he.offending
      simp only [RecognitionException.renumber, htext]

/-- Doing something unless reports are held back. -/
theorem concurs_unlessInRecovery {a b : ParserM σ Unit} (h : Concurs calm x f w Same a b) :
    Concurs calm x f w Same (do unless (← get).recovery.inRecovery do a) (do unless (← get).recovery.inRecovery do b) := by
  apply concurs_get
  intro w' i p q hle hpq
  obtain ⟨s, n, rfl⟩ := hpq.exists_eq
  exact .ite rfl (concurs_pure fun _ _ => rfl) (h.later hle)

/-- Reporting an exception. -/
theorem concurs_reportError {e : RecognitionException} (he : w.Knows e) :
    Concurs calm x f w Same (reportError e : ParserM σ Unit) (reportError (e.renumber f)) := by
  apply concurs_hooked _ (concurs_pure fun _ _ => rfl)
  apply concurs_unlessInRecovery
  apply concurs_beginErrorCondition.seq
  intro w' hle
  apply concurs_get
  intro w'' i p q hle' hpq
  have hknown := he.mono (Extent.le_trans hle hle')
  rw [hpq.exceptionMessage hknown]
  apply concurs_report _ _ rfl
  rintro _ ⟨⟩
  exact hknown

end Parser

end TreeProjection
