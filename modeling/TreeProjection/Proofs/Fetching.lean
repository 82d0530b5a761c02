import Mathlib.Logic.Function.Iterate
import TreeProjection.Proofs.Reading

/-! # What a stream fetches

A stream takes tokens from its source only when it has to.  Still it answers like a **head** that has the whole tape
before it, and only the texts of tokens show how far it has come: a text ends where the tokens end that have been taken.

* `TokenSource.Gives` — a source that gives the tokens of a tape, and then the end of the input for ever.
* `StreamCall`, `StreamAnswer` — the calls that read a stream, and what they answer.
* `Tape.Head`, `Tape.answer`, `Tape.move` — a head over a tape, and what a call is to it.
* `Stream.Mirrors` — a stream that stands where a head stands and has taken what the head has taken.
* `Stream.Mirrors.run` — each call keeps it so; `Stream.Mirrors.runAll` — so does every sequence of calls.
* `Stream.answers_as_eager` — a stream answers like a head that has taken everything beforehand. -/

namespace TreeProjection

/-! ## Sources that give a tape -/

section Source

variable {σ : Type} [TokenSource σ]

/-- What a source has become after a number of pulls. -/
def TokenSource.pulled (source : σ) (n : Nat) : σ := (fun s => (pull s).2)^[n] source

/-- One more pull. -/
theorem TokenSource.pulled_succ (source : σ) (n : Nat) :
    pulled source (n + 1) = (pull (pulled source n)).2 :=
  Function.iterate_succ_apply' _ n source

/-- First some pulls, then others. -/
theorem TokenSource.pulled_add (source : σ) (m n : Nat) :
    pulled (pulled source m) n = pulled source (m + n) := by
  induction n with
  | zero => rfl
  | succ n ih => rw [pulled_succ, ih, ← pulled_succ, Nat.add_assoc]

/-- What comes of a source by pulls is what it has become after some number of them. -/
theorem TokenSource.drawn_iff {source s : σ} : Drawn source s ↔ ∃ n, s = pulled source n := by
  constructor
  · intro h
    induction h with
    | refl => exact ⟨0, rfl⟩
    | pull _ ih =>
        obtain ⟨n, rfl⟩ := ih
        exact ⟨n + 1, (pulled_succ source n).symm⟩
  · rintro ⟨n, rfl⟩
    induction n with
    | zero => exact .refl
    | succ n ih =>
        rw [pulled_succ]
        exact .pull ih

/-- **A source gives a tape**: its tokens one after the other, the end of the input among them, and then the end of
the input for ever.  It never fails. -/
structure TokenSource.Gives (x : Tape) (source : σ) : Prop where
  /-- The tokens of the tape come first. -/
  token : ∀ n t, x.all[n]? = some t → (pull (pulled source n)).1 = .ok t
  /-- Then there is nothing but the end. -/
  beyond : ∀ n, x.size < n → ∃ t, (pull (pulled source n)).1 = .ok t ∧ t.isEof = true
  /-- There are no more tokens than the source says. -/
  bound : ∀ n, x.size ≤ n + bound (pulled source n)

namespace TokenSource.Gives

variable {x : Tape} {source : σ}

/-- What is left of the tape after some pulls is what the source gives then. -/
theorem feeds_drop (h : Gives x source) (n : Nat) : Feeds (x.all.drop n) (pulled source n) := by
  generalize hl : x.all.drop n = l
  -- induction on the rest of the tape, so that the pull that gives each token has a place of its own
  induction l generalizing n with
  | nil => trivial
  | cons t rest ih =>
      have hget : x.all[n]? = some t := by
        have hhead := congrArg List.head? hl
        simpa using hhead
      have hrest : x.all.drop (n + 1) = rest := by
        rw [← List.tail_drop, hl, List.tail_cons]
      have hlength := congrArg List.length hrest
      have hbound := h.bound n
      simp only [List.length_drop, x.length_all] at hlength
      refine ⟨by omega, ?_⟩
      intro a next hpull
      have htoken := h.token n t hget
      have hnext := pulled_succ source n
      rw [hpull] at htoken hnext
      refine ⟨Except.ok.inj htoken, ?_⟩
      rw [← show pulled source (n + 1) = next from hnext]
      exact ih (n + 1) hrest

/-- The source gives the tokens of the tape as long as it does not fail. -/
theorem feeds (h : Gives x source) : Feeds x.all source := by
  simpa [pulled] using h.feeds_drop 0

/-- The source does not fail, whatever has been taken from it. -/
theorem pull_ne_error (h : Gives x source) {s : σ} (hs : Drawn source s) (e : Error) :
    (pull s).1 ≠ .error e := by
  obtain ⟨n, rfl⟩ := drawn_iff.mp hs
  intro hfails
  rcases Nat.lt_or_ge x.size n with hbeyond | hwithin
  · obtain ⟨t, ht, -⟩ := h.beyond n hbeyond
    rw [hfails] at ht
    cases ht
  · have hlt : n < x.all.length := by
      rw [x.length_all]
      omega
    have ht := h.token n _ (List.getElem?_eq_getElem hlt)
    rw [hfails] at ht
    cases ht

/-- **What fails only where the source fails** does not fail. -/
theorem answered {α : Type} {act : StreamM σ α} {s : Stream σ} {post : α → Stream σ → Prop}
    (h : Gives x source) (hs : Drawn source s.source) (hstalls : Stream.Stalls act s)
    (hanswers : Answers act s post) : ∃ a t, act s = .ok a t ∧ post a t := by
  cases hact : act s with
  | ok a t => exact ⟨a, t, rfl, hanswers.of_ok hact⟩
  | error b t =>
      obtain ⟨s', e, hs', hfails, -⟩ := (Ends.of_error hstalls hact).2 b rfl
      exact absurd hfails (h.pull_ne_error (hs.trans hs') e)

end TokenSource.Gives

end Source

/-- A list of tokens loses one token with each pull. -/
theorem ListedTokens.pulled_eq {s : ListedTokens} (h : s.failIn = none) (n : Nat) :
    TokenSource.pulled s n = { s with rest := s.rest.drop n } := by
  induction n with
  | zero => rfl
  | succ n ih =>
      rw [TokenSource.pulled_succ, ih]
      show (ListedTokens.pull { s with rest := s.rest.drop n }).2 = _
      have htail : s.rest.drop (n + 1) = (s.rest.drop n).tail := List.tail_drop.symm
      rw [htail]
      cases s.rest.drop n <;> simp [ListedTokens.pull, h]

/-- **A list of tokens gives the tape of its tokens**, unless it is made to fail. -/
theorem ListedTokens.gives {s : ListedTokens} {x : Tape} (hnever : s.failIn = none)
    (hbody : s.rest = x.body) (hlast : s.last = x.last) : TokenSource.Gives x s where
  token n t ht := by
    rw [pulled_eq hnever, hbody]
    show (ListedTokens.pull { s with rest := x.body.drop n }).1 = _
    -- a pull gives the next token of the body, and the end of the input once the body is used up
    rcases Nat.lt_or_ge n x.body.length with hlt | hge
    · have hget : x.body[n] = t := by simpa [Tape.all, List.getElem?_append_left hlt, hlt] using ht
      simp [ListedTokens.pull, hnever, List.drop_eq_getElem_cons hlt, hget]
    · have hget : t = x.last := by
        have := x.getD_all_of_le hge
        rw [ht] at this
        exact this
      simp [ListedTokens.pull, hnever, List.drop_eq_nil_of_le hge, hget, hlast]
  beyond n hn := by
    rw [pulled_eq hnever, hbody]
    refine ⟨x.last, ?_, x.last_isEof⟩
    show (ListedTokens.pull { s with rest := x.body.drop n }).1 = _
    simp [ListedTokens.pull, hnever, List.drop_eq_nil_of_le (Nat.le_of_lt hn), hlast]
  bound n := by
    rw [pulled_eq hnever, hbody]
    show x.body.length ≤ n + (x.body.drop n).length
    rw [List.length_drop]
    omega

/-! ## A head over a tape -/

/-- A call that reads a stream. -/
inductive StreamCall where
  /-- Look at a visible token ahead, counted from one. -/
  | ahead (k : Nat)
  /-- Look at the type of a visible token ahead. -/
  | typeAhead (k : Nat)
  /-- Move past the current token. -/
  | consume
  /-- Move to a place. -/
  | seek (place : Nat)
  /-- Look at a visible token before the current one, counted from one. -/
  | behind (k : Nat)
  /-- Ask for the text of the tokens from one place to another. -/
  | textBetween (first last : Nat)
  deriving DecidableEq, Repr

/-- What a call answers. -/
inductive StreamAnswer where
  /-- A token. -/
  | token (t : Token)
  /-- A type. -/
  | type (ty : TokenType)
  /-- The cursor has been moved. -/
  | moved
  /-- A token, if there is one. -/
  | perhaps (t : Option Token)
  /-- A text. -/
  | text (s : String)
  deriving DecidableEq, Repr

/-- The text of the tokens of a list from one place to another, both included; the end of the input has none. -/
def Token.textOf (ts : List Token) (first last : Nat) : String :=
  String.join (((ts.take (last + 1)).drop first).filterMap fun t => if t.isEof then none else some t.text)

namespace Tape

variable (x : Tape)

/-- **All tokens as they are handed out**: each carries its place. -/
def listed : List Token := x.all.mapIdx fun i t => { t with index := some i }

/-- The tokens from a place on that a cursor may stand on: the visible ones and the end. -/
def stops (i : Nat) : List Token := (x.listed.drop i).filter Stream.isStop

/-- **The `k`-th visible token from a place on**, counted from one; if there are not so many, the end. -/
def ahead (i k : Nat) : Token := (x.stops i)[k - 1]?.getD (x.token x.size)

/-- The place of the `k`-th visible token from a place on. -/
def placeAhead (i k : Nat) : Nat := (x.ahead i k).index.getD x.size

/-- **The `k`-th visible token before a place**, counted from one. -/
def behind? (i : Nat) : (k : Nat) → Option Token
  | 0 => none
  | n + 1 => ((x.listed.take i).filter Token.isVisible).reverse[n]?

/-- **A head over a tape.** -/
structure Head where
  /-- The place where it stands. -/
  place : Nat
  /-- How many tokens it has taken, from the start on. -/
  taken : Nat
  deriving DecidableEq, Repr

/-- The head at the first place to stand on, with all tokens taken up to there. -/
def opening : Head := ⟨x.placeAhead 0 1, x.placeAhead 0 1 + 1⟩

/-- The head at the first place to stand on, with **all tokens taken**. -/
def whole : Head := ⟨x.placeAhead 0 1, x.size + 1⟩

/-- The head with the tokens taken up to a place, and perhaps more. -/
def Head.reach (head : Head) (place : Nat) : Head := { head with taken := max head.taken (place + 1) }

/-- **What a head answers.**  Only for a text it matters how many tokens have been taken. -/
def answer (head : Head) : StreamCall → StreamAnswer
  | .ahead k => .token (x.ahead head.place k)
  | .typeAhead k => .type (x.ahead head.place k).ty
  | .consume => .moved
  | .seek _ => .moved
  | .behind k => .perhaps (x.behind? head.place k)
  | .textBetween first last => .text (Token.textOf (x.listed.take head.taken) first last)

/-- **Where a head goes.**  To move past the current token is to move to the second one ahead, and to move to a place is
to move to the first one from there on.  Tokens are taken up to the one that is looked at or moved to. -/
def move (head : Head) : StreamCall → Head
  | .ahead k => head.reach (x.placeAhead head.place k)
  | .typeAhead k => head.reach (x.placeAhead head.place k)
  | .consume => { head.reach (x.placeAhead head.place 2) with place := x.placeAhead head.place 2 }
  | .seek place => { head.reach (x.placeAhead place 1) with place := x.placeAhead place 1 }
  | .behind _ => head
  | .textBetween _ _ => head

/-- The head after a first look ahead. -/
def opened (k : Nat) : Head := x.move x.opening (.ahead k)

/-- What a head answers to one call after the other. -/
def replies (head : Head) : List StreamCall → List StreamAnswer
  | [] => []
  | call :: rest => x.answer head call :: replies (x.move head call) rest

/-- Where a head is after some calls. -/
def headAfter (head : Head) (calls : List StreamCall) : Head := calls.foldl x.move head

end Tape

/-- A call asks for no text that goes beyond the tokens that have been taken. -/
def StreamCall.Within (taken : Nat) : StreamCall → Prop
  | textBetween _ last => last < taken
  | _ => True

namespace Tape

variable {x : Tape} {head other : Head} {call : StreamCall}

/-- What is answered to a call among others is what the head answers that the calls before it have left. -/
theorem getElem?_replies (head : Head) (calls : List StreamCall) (n : Nat) :
    (x.replies head calls)[n]? = calls[n]?.map (x.answer (x.headAfter head (calls.take n))) := by
  induction calls generalizing head n with
  | nil => simp [replies]
  | cons call rest ih =>
      cases n with
      | zero => simp [replies, headAfter]
      | succ n => simp [replies, headAfter, ih]

/-- Where a head goes does not depend on what it has taken. -/
theorem place_move (h : head.place = other.place) (call : StreamCall) :
    (x.move head call).place = (x.move other call).place := by
  cases call <;> simp [move, Head.reach, h]

/-- Where a head goes by several calls does not depend on what it has taken. -/
theorem place_headAfter (h : head.place = other.place) (calls : List StreamCall) :
    (x.headAfter head calls).place = (x.headAfter other calls).place := by
  induction calls generalizing head other with
  | nil => exact h
  | cons call rest ih => exact ih (place_move h call)

/-- No token is given back. -/
theorem taken_le_move (head : Head) (call : StreamCall) : head.taken ≤ (x.move head call).taken := by
  cases call with
  | behind | textBetween => exact Nat.le_refl _
  | _ => exact Nat.le_max_left _ _

/-- No token is given back by several calls. -/
theorem taken_le_headAfter (head : Head) (calls : List StreamCall) :
    head.taken ≤ (x.headAfter head calls).taken := by
  induction calls generalizing head with
  | nil => exact Nat.le_refl _
  | cons call rest ih => exact Nat.le_trans (taken_le_move head call) (ih (x.move head call))

/-- The text of tokens that have all been taken does not depend on what else has been. -/
theorem textOf_take {ts : List Token} {first last m : Nat} (h : last < m) :
    Token.textOf (ts.take m) first last = Token.textOf ts first last := by
  rw [Token.textOf, Token.textOf, List.take_take, Nat.min_eq_left h]

/-- **What a head has taken makes no difference** to what it answers, but for the end of a text. -/
theorem answer_congr (hplace : head.place = other.place) (hwithin : call.Within head.taken)
    (htaken : head.taken ≤ other.taken) : x.answer head call = x.answer other call := by
  cases call with
  | textBetween first last =>
      have hlast : last < head.taken := hwithin
      have hlast' : last < other.taken := Nat.lt_of_lt_of_le hlast htaken
      simp only [answer, textOf_take hlast, textOf_take hlast']
  | _ => simp [answer, hplace]

/-! ### The places of what is ahead -/

/-- All tokens are those of the tape with their places. -/
theorem getElem?_listed (i : Nat) : x.listed[i]? = if i ≤ x.size then some (x.token i) else none := by
  rw [listed, List.getElem?_mapIdx]
  by_cases hi : i ≤ x.size
  · have hlt : i < x.all.length := by
      rw [x.length_all]
      omega
    have hget : x.all[i]? = some x.all[i] := List.getElem?_eq_getElem hlt
    rw [if_pos hi, token, hget, Option.map_some, Option.getD_some, Nat.min_eq_left hi]
  · have hge : x.all.length ≤ i := by
      rw [x.length_all]
      omega
    rw [if_neg hi, List.getElem?_eq_none hge, Option.map_none]

/-- From a place on there is the token of that place first. -/
theorem drop_listed {i : Nat} (hi : i ≤ x.size) :
    x.listed.drop i = x.token i :: x.listed.drop (i + 1) := by
  have hget := getElem?_listed (x := x) i
  rw [if_pos hi] at hget
  obtain ⟨hlt, hi⟩ := List.getElem?_eq_some_iff.mp hget
  rw [List.drop_eq_getElem_cons hlt, hi]

/-- Beyond the end there is nothing to stand on. -/
theorem stops_of_lt {i : Nat} (hi : x.size < i) : x.stops i = [] := by
  have hlength : x.listed.length = x.size + 1 := by simp [listed]
  rw [stops, List.drop_eq_nil_of_le (by omega), List.filter_nil]

/-- **The first place to stand on** is where reading goes on. -/
theorem stops_eq {i : Nat} (hi : i ≤ x.size) :
    x.stops i = x.token (x.stop i) :: x.stops (x.stop i + 1) := by
  -- by induction on how far away that place is
  generalize hn : x.stop i - i = n
  have hle := x.le_stop hi
  have hsize := x.stop_le (i := i)
  induction n generalizing i with
  | zero =>
      have hstop : x.stop i = i := by omega
      have hhere : Stream.isStop (x.token i) = true := by
        rw [← hstop]
        exact x.isStop_stop
      rw [hstop, stops, drop_listed hi, List.filter_cons_of_pos hhere]
      rfl
  | succ n ih =>
      have hhere : Stream.isStop (x.token i) = false := x.not_isStop_of_lt_stop (Nat.le_refl i) (by omega)
      have hnext : x.stop (i + 1) = x.stop i :=
        x.stop_eq (by omega) hsize x.isStop_stop fun k h1 h2 => x.not_isStop_of_lt_stop (by omega) h2
      rw [stops, drop_listed hi, List.filter_cons_of_neg (by simp [hhere])]
      show x.stops (i + 1) = _
      rw [ih (i := i + 1) (by omega) (by omega) (by omega) (by omega), hnext]

/-- Going on by visible tokens never goes past the end. -/
theorem skip_le {i : Nat} (hi : i ≤ x.size) (n : Nat) : x.skip n i ≤ x.size := by
  induction n generalizing i with
  | zero => exact hi
  | succ n ih => exact ih x.stop_le

/-- Going on by visible tokens never goes back. -/
theorem le_skip {i : Nat} (hi : i ≤ x.size) (n : Nat) : i ≤ x.skip n i := by
  induction n generalizing i with
  | zero => exact Nat.le_refl i
  | succ n ih => exact Nat.le_trans (x.le_stop_succ hi) (ih x.stop_le)

/-- **What is ahead** is found by going on from where reading goes on. -/
theorem ahead_eq (i k : Nat) : x.ahead i k = x.token (x.skip (k - 1) (x.stop i)) := by
  rw [ahead]
  generalize k - 1 = n
  induction n generalizing i with
  | zero =>
      rcases Nat.lt_or_ge x.size i with hi | hi
      · simp [stops_of_lt hi, skip, x.stop_of_le (Nat.le_of_lt hi)]
      · simp [stops_eq hi, skip]
  | succ n ih =>
      rcases Nat.lt_or_ge x.size i with hi | hi
      · simp [stops_of_lt hi, x.stop_of_le (Nat.le_of_lt hi)]
      · rw [stops_eq hi, List.getElem?_cons_succ, ih, skip]

/-- The place of what is ahead. -/
theorem placeAhead_eq (i k : Nat) : x.placeAhead i k = x.skip (k - 1) (x.stop i) := by
  rw [placeAhead, ahead_eq, token_index, Option.getD_some,
    Nat.min_eq_left (skip_le x.stop_le (k - 1))]

/-- Nothing beyond the end is ahead. -/
theorem placeAhead_le (i k : Nat) : x.placeAhead i k ≤ x.size := by
  rw [placeAhead_eq]
  exact skip_le x.stop_le _

/-- Nothing beyond the end is taken. -/
theorem taken_move_le (h : head.taken ≤ x.size + 1) (call : StreamCall) :
    (x.move head call).taken ≤ x.size + 1 := by
  cases call with
  | behind | textBetween => exact h
  | _ => exact Nat.max_le.mpr ⟨h, Nat.succ_le_succ (placeAhead_le _ _)⟩

/-- Nothing beyond the end is taken by several calls. -/
theorem taken_headAfter_le (h : head.taken ≤ x.size + 1) (calls : List StreamCall) :
    (x.headAfter head calls).taken ≤ x.size + 1 := by
  induction calls generalizing head with
  | nil => exact h
  | cons call rest ih => exact ih (taken_move_le h call)

/-- Nothing beyond the end is taken by a first look ahead. -/
theorem taken_opened_le {k : Nat} : (x.opened k).taken ≤ x.size + 1 :=
  taken_move_le (Nat.succ_le_succ (placeAhead_le 0 1)) _

end Tape

/-! ## How much is taken -/

namespace Stream

variable {σ : Type} [TokenSource σ] {x : Tape} {s t u : Stream σ} {i m n : Nat}

/-- **Tokens have been taken until there were `n`**, unless there were as many before, one with each pull. -/
structure Fetches (n : Nat) (s t : Stream σ) : Prop where
  /-- There are as many tokens. -/
  size : t.buffer.size = max s.buffer.size n
  /-- Each of them has been taken by one pull. -/
  source : t.source = TokenSource.pulled s.source (t.buffer.size - s.buffer.size)

namespace Fetches

/-- There are enough tokens. -/
theorem refl (h : n ≤ s.buffer.size) : Fetches n s s where
  size := (Nat.max_eq_left h).symm
  source := by simp [TokenSource.pulled]

/-- First some tokens are taken, then others. -/
theorem trans (h : Fetches m s t) (h' : Fetches n t u) : Fetches (max m n) s u where
  size := by rw [h'.size, h.size, Nat.max_assoc]
  source := by
    have hsize := h.size
    have hsize' := h'.size
    rw [h'.source, h.source, TokenSource.pulled_add]
    congr 1
    omega

/-- Moving the cursor takes nothing. -/
theorem moved (h : Fetches n s t) (cursor : Nat) : Fetches n s { t with cursor } := ⟨h.size, h.source⟩

end Fetches

/-- Tokens are taken up to the place that is found, which is beyond those that were there. -/
theorem fetches_fetchFrom (h : s.Reads x) (hlt : s.buffer.size ≤ x.size)
    (hfuel : x.size < n + s.buffer.size) : Answers (fetchFrom i n) s fun j t =>
      Fetches (j + 1) s t ∧ s.buffer.size ≤ j := by
  induction n generalizing s with
  | zero => omega
  | succ n ih =>
      unfold Answers Ends fetchFrom
      cases hpull : TokenSource.pull s.source with
      | mk answer source =>
          cases answer with
          | error e => rintro _ ⟨⟩
          | ok t =>
              obtain ⟨hreads, -, heof⟩ := h.push hlt hpull
              have hsize : ({ s with source }.push t).buffer.size = s.buffer.size + 1 := by
                simp [Stream.push]
              have hone : Fetches (s.buffer.size + 1) s ({ s with source }.push t) := by
                refine ⟨by omega, ?_⟩
                rw [hsize, Nat.add_sub_cancel_left]
                show source = TokenSource.pulled s.source 1
                rw [TokenSource.pulled_succ]
                exact (congrArg Prod.snd hpull).symm
              by_cases hstop : (t.isEof || (decide (i ≤ s.buffer.size) && t.isVisible)) = true
              · simp only [hstop, if_true]
                rintro _ ⟨⟩
                exact ⟨hone, Nat.le_refl _⟩
              · simp only [hstop, if_false, Bool.false_eq_true]
                -- the token is not the end, so that the end is still to come
                have hmore : s.buffer.size ≠ x.size := by
                  intro hend
                  simp [heof, hend] at hstop
                refine (ih hreads (by omega) (by omega)).mono ?_
                rintro j u ⟨hu, hj⟩
                refine ⟨?_, by omega⟩
                have htwo := hone.trans hu
                rwa [Nat.max_eq_right (by omega)] at htwo

/-- Tokens are taken up to where reading goes on. -/
theorem fetches_nextStop (h : s.Reads x) (i : Nat) :
    Answers (nextStop i) s fun j t => Fetches (j + 1) s t := by
  have hsize := h.size_le
  unfold Answers Ends nextStop findStop?
  cases hfind : s.stopAmong? (s.buffer.size - i) i with
  -- what has been taken reaches far enough already
  | some j =>
      obtain ⟨hij, hj, -⟩ := stopAmong?_eq_some hfind
      rintro _ ⟨⟩
      exact .refl (by omega)
  | none =>
      -- without a place to stop at nothing is left to take, or tokens are taken until there is one
      have hended := h.ended
      cases hs : s.ended with
      | true =>
          rw [hs] at hended
          have hfull : s.buffer.size = x.size + 1 := by simpa using hended.symm
          rintro _ ⟨⟩
          exact .refl (by omega)
      | false =>
          rw [hs] at hended
          have hmore : s.buffer.size ≠ x.size + 1 := by simpa using hended.symm
          have hfeeds := h.feeds
          have hall : s.buffer.size < x.all.length := by
            rw [x.length_all]
            omega
          rw [List.drop_eq_getElem_cons hall] at hfeeds
          have hbound := hfeeds.1
          rw [List.length_drop, x.length_all] at hbound
          exact (fetches_fetchFrom h (by omega) (by omega)).mono fun j t ht => ht.1

/-- Tokens are taken up to the place that is gone to. -/
theorem fetches_skipFrom (h : s.Reads x) (hi : i < s.buffer.size) (n : Nat) :
    Answers (skipFrom n i) s fun j t => Fetches (j + 1) s t := by
  induction n generalizing s i with
  | zero => exact .of_pure (.refl hi)
  | succ n ih =>
      have hsize := h.size_le
      unfold skipFrom
      refine (answers_tokenAt h hi).bind ?_
      rintro _ _ ⟨rfl, rfl⟩
      by_cases heof : (x.token i).isEof = true
      · rw [if_pos heof]
        exact .of_pure (.refl hi)
      · rw [if_neg heof]
        refine ((answers_nextStop h (i + 1)).and (fetches_nextStop h (i + 1))).bind ?_
        rintro _ t ⟨⟨rfl, hreads, hlt, -⟩, hfetched⟩
        refine ((answers_skipFrom hreads hlt n).and (ih hreads hlt)).mono ?_
        rintro j u ⟨⟨hj, -⟩, hmore⟩
        -- the last place is not before the first
        have hle : x.stop (i + 1) ≤ j := by
          rw [hj]
          exact Tape.le_skip x.stop_le n
        have hboth := hfetched.trans hmore
        rwa [Nat.max_eq_right (by omega)] at hboth

/-- **Looking ahead** takes tokens up to the one that is looked at. -/
theorem fetches_ahead (h : s.Standing x i) (k : Nat) :
    Answers (ahead k) s fun _ t => Fetches (x.placeAhead i k + 1) s t := by
  unfold ahead
  refine (Ends.bind_of_ok (start_of_started h.started)).mpr ?_
  rw [ends_get_bind, h.cursor]
  refine Answers.bind ((answers_skipFrom h.reads h.lt_size (k - 1)).and
    (fetches_skipFrom h.reads h.lt_size (k - 1))) ?_
  rintro _ t ⟨⟨rfl, hreads, hlt, -⟩, hfetched⟩
  refine (answers_tokenAt hreads hlt).mono ?_
  rintro _ _ ⟨-, rfl⟩
  rwa [Tape.placeAhead_eq, h.stop_eq]

/-- **Moving past the current token** takes tokens up to the next one. -/
theorem fetches_consume (h : s.Standing x i) :
    Answers consume s fun _ t => Fetches (x.placeAhead i 2 + 1) s t := by
  have hplace : x.placeAhead i 2 = x.stop (i + 1) := by
    rw [Tape.placeAhead_eq, h.stop_eq]
    rfl
  unfold consume
  refine (Ends.bind_of_ok (start_of_started h.started)).mpr ?_
  rw [ends_get_bind, h.cursor, hplace]
  refine Answers.bind (answers_tokenAt h.reads h.lt_size) ?_
  rintro _ _ ⟨rfl, rfl⟩
  -- at the end of the input there is no further token to take
  by_cases heof : (x.token i).isEof = true
  · rw [if_pos heof]
    have hle := h.le_size
    have hlt := h.lt_size
    rw [x.token_isEof, decide_eq_true_iff] at heof
    rw [x.stop_of_le (by omega)]
    exact .of_pure (.refl (by omega))
  · rw [if_neg heof]
    refine ((answers_nextStop h.reads (i + 1)).and (fetches_nextStop h.reads (i + 1))).bind ?_
    rintro _ t ⟨⟨rfl, -⟩, hfetched⟩
    exact fun _ _ => hfetched.moved _

/-- **Moving to a place** takes tokens up to where reading goes on from there. -/
theorem fetches_seek (h : s.Standing x i) (j : Nat) :
    Answers (seek j) s fun _ t => Fetches (x.placeAhead j 1 + 1) s t := by
  have hplace : x.placeAhead j 1 = x.stop j := Tape.placeAhead_eq j 1
  unfold seek
  refine (Ends.bind_of_ok (start_of_started h.started)).mpr ?_
  rw [hplace]
  refine Answers.bind ((answers_nextStop h.reads j).and (fetches_nextStop h.reads j)) ?_
  rintro _ t ⟨⟨rfl, -⟩, hfetched⟩
  exact fun _ _ => hfetched.moved _

/-! ## What the buffer holds -/

/-- **The buffer is a prefix of the tape.** -/
theorem Reads.toList_buffer (h : s.Reads x) : s.buffer.toList = x.listed.take s.buffer.size := by
  have hsize := h.size_le
  apply List.ext_getElem?
  intro k
  rw [Array.getElem?_toList, List.getElem?_take, Tape.getElem?_listed]
  by_cases hk : k < s.buffer.size
  · rw [h.get k hk, if_pos hk, if_pos (by omega)]
  · rw [Array.getElem?_eq_none (Nat.le_of_not_lt hk), if_neg hk]

omit [TokenSource σ] in
/-- The tokens before a place, from the last one on. -/
theorem visibleBefore?_eq (s : Stream σ) (n i : Nat) (hi : i ≤ s.buffer.size) :
    s.visibleBefore? n i = ((s.buffer.toList.take i).filter Token.isVisible).reverse[n]? := by
  induction i generalizing n with
  | zero => simp [visibleBefore?]
  | succ i ih =>
      have hlt : i < s.buffer.toList.length := by
        rw [Array.length_toList]
        exact hi
      have hget : s.buffer[i]? = some s.buffer.toList[i] := by
        rw [← Array.getElem?_toList, List.getElem?_eq_getElem hlt]
      have htake := List.take_succ_eq_append_getElem hlt
      unfold visibleBefore?
      rw [hget, htake, List.filter_append, List.reverse_append]
      -- a visible token is counted down, and a hidden one is passed over with the same count
      by_cases hvisible : s.buffer.toList[i].isVisible = true
      · rw [Option.filter_some_pos hvisible, List.filter_cons_of_pos hvisible]
        cases n with
        | zero => simp
        | succ n =>
            simp only [List.filter_nil, List.reverse_singleton, List.singleton_append,
              List.getElem?_cons_succ]
            exact ih n (by omega)
      · rw [Option.filter_some_neg (by simpa using hvisible), List.filter_cons_of_neg hvisible]
        simp only [List.filter_nil, List.reverse_nil, List.nil_append]
        cases n <;> exact ih _ (by omega)

/-- **Looking back** finds the tokens of the tape. -/
theorem Standing.behind?_eq (h : s.Standing x i) (k : Nat) : s.behind? k = x.behind? i k := by
  cases k with
  | zero => rfl
  | succ n =>
      have hle := Nat.le_of_lt h.lt_size
      rw [behind?, h.cursor, visibleBefore?_eq s n i hle, h.reads.toList_buffer, List.take_take,
        Nat.min_eq_left hle]
      rfl

/-! ## Streams and heads -/

/-- **A stream stands where a head stands**, and has taken what the head has taken, with one pull for each token. -/
structure Mirrors (x : Tape) (source : σ) (head : Tape.Head) (s : Stream σ) : Prop where
  /-- The cursor is where the head stands. -/
  standing : s.Standing x head.place
  /-- The same tokens have been taken. -/
  taken : s.buffer.size = head.taken
  /-- Nothing else has been taken from the source. -/
  source : s.source = TokenSource.pulled source head.taken

namespace Mirrors

variable {source : σ} {head : Tape.Head}

/-- What is left of the source comes of it by pulls. -/
theorem drawn (h : s.Mirrors x source head) : TokenSource.Drawn source s.source :=
  TokenSource.drawn_iff.mpr ⟨_, h.source⟩

/-- The stream goes where the head goes, and takes what the head takes. -/
theorem moved (h : s.Mirrors x source head) {place : Nat} (hstanding : t.Standing x place)
    (hfetched : Fetches n s t) : t.Mirrors x source ⟨place, max head.taken n⟩ where
  standing := hstanding
  taken := by rw [hfetched.size, h.taken]
  source := by
    have hsize : t.buffer.size = max head.taken n := by rw [hfetched.size, h.taken]
    have hle : head.taken ≤ max head.taken n := Nat.le_max_left _ _
    rw [hfetched.source, h.source, TokenSource.pulled_add, hsize, h.taken, Nat.add_sub_cancel' hle]

/-- Looking ahead. -/
theorem ahead (h : s.Mirrors x source head) (hgives : TokenSource.Gives x source) (k : Nat) :
    ∃ t, Stream.ahead k s = .ok (x.ahead head.place k) t ∧
      t.Mirrors x source (head.reach (x.placeAhead head.place k)) := by
  have hfacing : s.Facing x head.place := .standing h.standing
  obtain ⟨a, t, hok, ⟨ha, hstanding⟩, hfetched⟩ := hgives.answered h.drawn (stalls_ahead hfacing k)
    ((answers_ahead hfacing k).and (fetches_ahead h.standing k))
  refine ⟨t, ?_, h.moved hstanding hfetched⟩
  rw [hok, ha, Tape.ahead_eq, h.standing.stop_eq]

/-- Moving past the current token. -/
theorem consume (h : s.Mirrors x source head) (hgives : TokenSource.Gives x source) :
    ∃ t, Stream.consume s = .ok () t ∧ t.Mirrors x source (x.move head .consume) := by
  have hfacing : s.Facing x head.place := .standing h.standing
  obtain ⟨⟨⟩, t, hok, hstanding, hfetched⟩ := hgives.answered h.drawn (stalls_consume hfacing)
    ((answers_consume hfacing).and (fetches_consume h.standing))
  refine ⟨t, hok, h.moved ?_ hfetched⟩
  rwa [Tape.placeAhead_eq, h.standing.stop_eq]

/-- Moving to a place. -/
theorem seek (h : s.Mirrors x source head) (hgives : TokenSource.Gives x source) (place : Nat) :
    ∃ t, Stream.seek place s = .ok () t ∧ t.Mirrors x source (x.move head (.seek place)) := by
  have hfacing : s.Facing x head.place := .standing h.standing
  obtain ⟨⟨⟩, t, hok, hstanding, hfetched⟩ := hgives.answered h.drawn (stalls_seek place s)
    ((answers_seek hfacing place).and (fetches_seek h.standing place))
  refine ⟨t, hok, h.moved ?_ hfetched⟩
  rwa [Tape.placeAhead_eq]

end Mirrors

end Stream

namespace StreamCall

variable {σ : Type} [TokenSource σ]

/-- Make a call. -/
def run : StreamCall → StreamM σ StreamAnswer
  | ahead k => do return .token (← Stream.ahead k)
  | typeAhead k => do return .type (← Stream.ahead k).ty
  | consume => do
    Stream.consume
    return .moved
  | seek place => do
    Stream.seek place
    return .moved
  | behind k => do return .perhaps ((← get).behind? k)
  | textBetween first last => do return .text ((← get).textBetween first last)

/-- Make one call after the other. -/
def runAll : List StreamCall → StreamM σ (List StreamAnswer)
  | [] => return []
  | call :: rest => do
    let answer ← call.run
    let answers ← runAll rest
    return answer :: answers

end StreamCall

namespace Stream

variable {σ : Type} [TokenSource σ] {x : Tape} {source : σ} {s : Stream σ} {head : Tape.Head}

/-- **Each call** is answered as by the head, and leaves the stream where it leaves the head. -/
theorem Mirrors.run (h : s.Mirrors x source head) (hgives : TokenSource.Gives x source)
    (call : StreamCall) :
    ∃ t, call.run s = .ok (x.answer head call) t ∧ t.Mirrors x source (x.move head call) := by
  cases call with
  | ahead k =>
      obtain ⟨t, hok, ht⟩ := h.ahead hgives k
      exact ⟨t, bind_ok hok rfl, ht⟩
  | typeAhead k =>
      obtain ⟨t, hok, ht⟩ := h.ahead hgives k
      exact ⟨t, bind_ok hok rfl, ht⟩
  | consume =>
      obtain ⟨t, hok, ht⟩ := h.consume hgives
      exact ⟨t, bind_ok hok rfl, ht⟩
  | seek place =>
      obtain ⟨t, hok, ht⟩ := h.seek hgives place
      exact ⟨t, bind_ok hok rfl, ht⟩
  | behind k =>
      refine ⟨s, ?_, h⟩
      show EStateM.Result.ok (StreamAnswer.perhaps (s.behind? k)) s = _
      rw [h.standing.behind?_eq]
      rfl
  | textBetween first last =>
      refine ⟨s, ?_, h⟩
      show EStateM.Result.ok (StreamAnswer.text (Token.textOf s.buffer.toList first last)) s = _
      rw [h.standing.reads.toList_buffer, h.taken]
      rfl

/-- **One call after the other** is answered as by the head. -/
theorem Mirrors.runAll (h : s.Mirrors x source head) (hgives : TokenSource.Gives x source)
    (calls : List StreamCall) :
    ∃ t, StreamCall.runAll calls s = .ok (x.replies head calls) t ∧
      t.Mirrors x source (x.headAfter head calls) := by
  induction calls generalizing s head with
  | nil => exact ⟨s, rfl, h⟩
  | cons call rest ih =>
      obtain ⟨t, hcall, ht⟩ := h.run hgives call
      obtain ⟨u, hrest, hu⟩ := ih ht
      exact ⟨u, bind_ok hcall (bind_ok hrest rfl), hu⟩

/-- **A stream that is started** stands where a head begins. -/
theorem mirrors_start (hgives : TokenSource.Gives x source) :
    ∃ s, start (ofSource source) = .ok () s ∧ s.Mirrors x source x.opening := by
  have hreads : (ofSource source).Reads x := reads_ofSource hgives.feeds
  have hfirst : x.placeAhead 0 1 = x.stop 0 := Tape.placeAhead_eq 0 1
  have hfetched : Answers start (ofSource source) fun _ t => Fetches (x.stop 0 + 1) (ofSource source) t := by
    unfold start
    show Ends _ (ofSource source) _
    rw [ends_get_bind, if_neg (by simp [ofSource]), ends_set_bind]
    have hreads' : { ofSource source with started := true }.Reads x :=
      ⟨hreads.get, hreads.size_le, hreads.ended, hreads.feeds⟩
    refine Answers.bind ((answers_nextStop hreads' 0).and (fetches_nextStop hreads' 0)) ?_
    rintro _ t ⟨⟨rfl, -⟩, ht⟩
    exact fun _ _ => ⟨ht.size, ht.source⟩
  obtain ⟨⟨⟩, s, hok, hstanding, hs⟩ := hgives.answered .refl (stalls_start (ofSource source))
    ((answers_start (.fresh hreads rfl rfl)).and hfetched)
  have hsize : s.buffer.size = x.placeAhead 0 1 + 1 := by
    rw [hs.size, hfirst]
    exact Nat.max_eq_right (Nat.zero_le _)
  refine ⟨s, hok, ?_, hsize, ?_⟩
  · rwa [Tape.opening, hfirst]
  · rw [hs.source, hsize]
    rfl

/-- A look ahead starts a stream. -/
theorem ahead_of_start {t : Stream σ} (hstart : start s = .ok () t) (hstarted : t.started = true) (k : Nat) :
    ahead k s = ahead k t := by
  show EStateM.bind start _ s = EStateM.bind start _ t
  unfold EStateM.bind
  rw [hstart, start_of_started hstarted]

/-- **A stream answers like a head that has taken everything beforehand.**  Over a source that gives a tape, a stream
that has been looked at answers every sequence of calls.  Each answer is that of a head over the whole tape, unless a
text is asked for that goes beyond the tokens taken so far, which ends where these end.  The cursor is where that head
is, on a visible token or the end.  The buffer is a prefix of the tape, each token with its place, and there has been
one pull for each of its tokens, so that nothing has been taken after the end. -/
theorem answers_as_eager (hgives : TokenSource.Gives x source) (k : Nat) :
    ∃ s₀, ahead k (ofSource source) = .ok (x.ahead x.whole.place k) s₀ ∧ ∀ calls : List StreamCall, ∃ s,
      StreamCall.runAll calls s₀ = .ok (x.replies (x.opened k) calls) s ∧
      (∀ (n : Nat) (call : StreamCall), calls[n]? = some call →
        call.Within (x.headAfter (x.opened k) (calls.take n)).taken →
          (x.replies (x.opened k) calls)[n]? = (x.replies x.whole calls)[n]?) ∧
      s.cursor = (x.headAfter x.whole calls).place ∧ isStop (x.token s.cursor) = true ∧
      s.buffer.size = (x.headAfter (x.opened k) calls).taken ∧
      s.buffer.toList = x.listed.take s.buffer.size ∧ s.buffer.size ≤ x.size + 1 ∧
      s.source = TokenSource.pulled source s.buffer.size := by
  obtain ⟨s₁, hstart, hs₁⟩ := mirrors_start hgives
  obtain ⟨s₀, hahead, hs₀⟩ := hs₁.ahead hgives k
  refine ⟨s₀, ?_, ?_⟩
  · rw [ahead_of_start hstart hs₁.standing.started, hahead]
    rfl
  · intro calls
    obtain ⟨s, hrun, hs⟩ := hs₀.runAll hgives calls
    have hsize := hs.standing.reads.size_le
    have hopened : (x.opened k).place = x.whole.place := rfl
    have hplace : (x.headAfter (x.opened k) calls).place = (x.headAfter x.whole calls).place :=
      Tape.place_headAfter hopened calls
    refine ⟨s, hrun, ?_, hs.standing.cursor.trans hplace, ?_, hs.taken, hs.standing.reads.toList_buffer, hsize, ?_⟩
    · intro n call hcall hwithin
      rw [Tape.getElem?_replies, Tape.getElem?_replies, hcall, Option.map_some, Option.map_some,
        Tape.answer_congr (Tape.place_headAfter hopened _) hwithin]
      exact Nat.le_trans (Tape.taken_headAfter_le Tape.taken_opened_le _) (Tape.taken_le_headAfter x.whole _)
    · rw [hs.standing.cursor]
      exact hs.standing.isStop
    · rw [hs.taken]
      exact hs.source

end Stream

namespace Spaced

/-- Two tokens with hidden ones around them. -/
def tape : Tape where
  body := [{ ty := ⟨9⟩, text := " ", channel := hiddenChannel }, { ty := ⟨1⟩, text := "a" },
    { ty := ⟨9⟩, text := " ", channel := hiddenChannel }, { ty := ⟨2⟩, text := "b" },
    { ty := ⟨9⟩, text := " ", channel := hiddenChannel }]
  last := .endOfInput 5
  body_inner := by decide
  last_isEof := rfl

/-- A source that gives them. -/
def source : ListedTokens where
  rest := tape.body
  last := tape.last

/-- The source gives the tape. -/
theorem gives_source : TokenSource.Gives tape source := ListedTokens.gives rfl rfl rfl

/-- Moving to and fro, past the end too, and asking for texts before and after their tokens are taken. -/
def calls : List StreamCall :=
  [.textBetween 0 4, .consume, .behind 1, .consume, .typeAhead 7, .seek 9, .behind 2, .seek 0, .textBetween 0 4]

/-- The stream answers the calls.  The first text ends where the tokens end that have been taken. -/
theorem answers_as_eager_spaced : ∃ s₀ s, Stream.ahead 2 (.ofSource source) = .ok (tape.token 3) s₀ ∧
    StreamCall.runAll calls s₀ = .ok [.text " a b", .moved, .perhaps (some (tape.token 1)), .moved, .type .eof, .moved,
      .perhaps (some (tape.token 1)), .moved, .text " a b "] s ∧
    s.cursor = 1 ∧ s.buffer.toList = tape.listed ∧ s.source = TokenSource.pulled source 6 := by
  have hfirst : tape.ahead tape.whole.place 2 = tape.token 3 := by decide +kernel
  have hreplies : tape.replies (tape.opened 2) calls = [.text " a b", .moved, .perhaps (some (tape.token 1)), .moved,
      .type .eof, .moved, .perhaps (some (tape.token 1)), .moved, .text " a b "] := by decide +kernel
  have hhead : tape.headAfter (tape.opened 2) calls = ⟨1, 6⟩ := by decide +kernel
  have hplace : (tape.headAfter tape.whole calls).place = 1 := by decide +kernel
  obtain ⟨s₀, hahead, hcalls⟩ := Stream.answers_as_eager gives_source 2
  obtain ⟨s, hrun, -, hcursor, -, hsize, hbuffer, -, hsource⟩ := hcalls calls
  rw [hhead] at hsize
  rw [hsize] at hbuffer hsource
  exact ⟨s₀, s, hfirst ▸ hahead, hreplies ▸ hrun, hcursor.trans hplace, hbuffer, hsource⟩

/-- **A text is not that of the whole tape** if its tokens have not been taken: it ends where those end that have. -/
theorem text_before_taken : TokenSource.Gives tape source ∧
    ¬ ∃ s, StreamCall.runAll [.ahead 1, .textBetween 0 4] (.ofSource source) =
      .ok (tape.replies tape.whole [.ahead 1, .textBetween 0 4]) s := by
  refine ⟨gives_source, ?_⟩
  rintro ⟨s, hs⟩
  have hanswers : (match StreamCall.runAll [.ahead 1, .textBetween 0 4] (.ofSource source) with
    | .ok answers _ => answers
    | .error _ _ => []) ≠ tape.replies tape.whole [.ahead 1, .textBetween 0 4] := by decide +kernel
  rw [hs] at hanswers
  exact hanswers rfl

end Spaced

end TreeProjection
