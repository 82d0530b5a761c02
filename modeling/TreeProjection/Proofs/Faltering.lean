import TreeProjection.Proofs.Fetching

/-! # Sources that falter

A source may fail at a pull and give the next token at a later one.  A call during which it fails hands its error on,
and leaves the cursor where it was: what has been taken stays in the buffer, and the next call goes on from there.  So
the calls that are answered are answered as if the others had not been made, over a source that never fails.

Opening a stream is the exception.  A stream counts as opened before the cursor has been put on the first visible token;
if the source fails before that token has come, the cursor stays at the start, visible or not.

* `TokenSource.given`, `TokenSource.failures` — what a number of pulls have come to.
* `TokenSource.Falters` — a source whose pulls that succeed give the tokens of a tape.
* `StreamCall.tryAll` — one call after the other, whatever becomes of each.
* `Stream.takes_nextStop`, `Stream.tries_run` — what a call takes, and what is left after it.
* `Stream.failed_calls_leave_no_trace` — a failed call makes no difference to those after it.
* `Faltering.opening_fails` — unless it was the one that opened the stream. -/

namespace TreeProjection

/-- The failure of an outcome, if it is one. -/
def failureOf {ε α : Type} : Except ε α → List ε
  | .ok _ => []
  | .error e => [e]

/-- Two actions that end alike from a state satisfy the same there. -/
theorem Ends.of_eq {ε τ α : Type} {act y : EStateM ε τ α} {s : τ} {post : Except ε α → τ → Prop}
    (h : act s = y s) (hy : Ends y s post) : Ends act s post := by
  unfold Ends at hy ⊢
  rwa [h]

/-! ## Pulls that fail -/

namespace TokenSource

variable {σ : Type} [TokenSource σ] {x : Tape} {source : σ} {n : Nat} {a : Token} {e : Error} {next : σ}

/-- **How many of the first pulls give a token.** -/
def given (source : σ) : Nat → Nat
  | 0 => 0
  | n + 1 => given source n + if (pull (pulled source n)).1.isOk then 1 else 0

/-- **The errors of the first pulls**, in order. -/
def failures (source : σ) : Nat → List Error
  | 0 => []
  | n + 1 => failures source n ++ failureOf (pull (pulled source n)).1

/-- After a pull that gives a token. -/
theorem given_succ_of_ok (h : pull (pulled source n) = (.ok a, next)) : given source (n + 1) = given source n + 1 := by
  rw [given, h]
  rfl

/-- After a pull that fails. -/
theorem given_succ_of_error (h : pull (pulled source n) = (.error e, next)) :
    given source (n + 1) = given source n := by
  rw [given, h]
  rfl

/-- The failures of some pulls, and of those after them. -/
theorem failures_add (source : σ) (m n : Nat) :
    failures source (m + n) = failures source m ++ failures (pulled source m) n := by
  induction n with
  | zero => exact (List.append_nil _).symm
  | succ n ih =>
      show failures source (m + n + 1) = _
      rw [failures, failures, ih, List.append_assoc, pulled_add]

/-- More pulls have given more tokens. -/
theorem given_mono {m : Nat} (h : m ≤ n) : given source m ≤ given source n := by
  induction h with
  | refl => exact Nat.le_refl _
  | step _ ih => exact Nat.le_trans ih (Nat.le_add_right _ _)

/-- As long as no pull has failed, each has given a token. -/
theorem given_eq_of_failures (h : failures source n = []) : given source n = n := by
  induction n with
  | zero => rfl
  | succ n ih =>
      obtain ⟨hbefore, hlast⟩ := List.append_eq_nil_iff.mp h
      cases hpull : pull (pulled source n) with
      | mk answer next =>
          rw [hpull] at hlast
          cases answer with
          | ok a => rw [given_succ_of_ok hpull, ih hbefore]
          | error e => cases hlast

/-- **A source falters over a tape**: the pulls that succeed give its tokens one after the other.  Any pull may fail,
and the source may go on after it or fail for ever.  What comes after the end is left open. -/
structure Falters (x : Tape) (source : σ) : Prop where
  /-- A pull that succeeds gives the next token. -/
  token : ∀ n a, given source n ≤ x.size → (pull (pulled source n)).1 = .ok a → x.all[given source n]? = some a
  /-- There are no more tokens than the source says. -/
  bound : ∀ n, x.size ≤ given source n + bound (pulled source n)

/-- What is left of the tape after some pulls is what the source gives then. -/
theorem Falters.feeds_drop (h : Falters x source) (n : Nat) :
    Feeds (x.all.drop (given source n)) (pulled source n) := by
  generalize hl : x.all.drop (given source n) = l
  -- By induction on what is left, each token of which is the next that is given.
  induction l generalizing n with
  | nil => trivial
  | cons t rest ih =>
      have hget : x.all[given source n]? = some t := by
        have hhead := congrArg List.head? hl
        simpa using hhead
      have hrest : x.all.drop (given source n + 1) = rest := by
        rw [← List.tail_drop, hl, List.tail_cons]
      have hlt : given source n < x.all.length := (List.getElem?_eq_some_iff.mp hget).1
      have hlength := congrArg List.length hrest
      have hbound := h.bound n
      rw [x.length_all] at hlt
      simp only [List.length_drop, x.length_all] at hlength
      refine ⟨by omega, fun a next hpull => ?_⟩
      have htoken := h.token n a (by omega) (congrArg Prod.fst hpull)
      have hnext : pulled source (n + 1) = next := by rw [pulled_succ, hpull]
      refine ⟨Option.some.inj (htoken.symm.trans hget), ?_⟩
      rw [← hnext]
      exact ih (n + 1) (by rw [given_succ_of_ok hpull, hrest])

end TokenSource

/-! ## Calls that may fail -/

namespace StreamCall

variable {σ : Type} [TokenSource σ]

/-- **A call that looks ahead or moves the cursor.** What is ahead is counted from one. -/
def Reads : StreamCall → Prop
  | ahead k => 1 ≤ k
  | typeAhead k => 1 ≤ k
  | consume => True
  | seek _ => True
  | behind _ => False
  | textBetween _ _ => False

instance : DecidablePred Reads := fun call => by
  cases call <;> unfold Reads <;> infer_instance

/-- Make a call, whatever becomes of it. -/
def attempt (call : StreamCall) (s : Stream σ) : Except Abort StreamAnswer × Stream σ :=
  match call.run s with
  | .ok answer t => (.ok answer, t)
  | .error a t => (.error a, t)

/-- **Make one call after the other, whatever becomes of each.** -/
def tryAll : List StreamCall → Stream σ → List (StreamCall × Except Abort StreamAnswer) × Stream σ
  | [], s => ([], s)
  | call :: rest, s =>
    let (outcome, t) := call.attempt s
    let (outcomes, u) := tryAll rest t
    ((call, outcome) :: outcomes, u)

/-- The calls that have been answered, with their answers. -/
def answered (tried : List (StreamCall × Except Abort StreamAnswer)) : List (StreamCall × StreamAnswer) :=
  tried.filterMap fun (call, outcome) => outcome.toOption.map (call, ·)

/-- The failures of calls, in order. -/
def failed (tried : List (StreamCall × Except Abort StreamAnswer)) : List Abort :=
  tried.flatMap fun (_, outcome) => failureOf outcome

/-- Every call is tried. -/
theorem map_fst_tryAll (calls : List StreamCall) (s : Stream σ) : (tryAll calls s).1.map Prod.fst = calls := by
  induction calls generalizing s with
  | nil => rfl
  | cons call rest ih => exact congrArg (call :: ·) (ih _)

/-- A call that has been answered is one of those that have been made. -/
theorem mem_of_mem_answered {calls : List StreamCall} {s : Stream σ} {call : StreamCall}
    (h : call ∈ (answered (tryAll calls s).1).map Prod.fst) : call ∈ calls := by
  obtain ⟨made, hmade, rfl⟩ := List.mem_map.mp h
  obtain ⟨⟨call, outcome⟩, hmem, hanswer⟩ := List.mem_filterMap.mp hmade
  obtain ⟨a, -, rfl⟩ := Option.map_eq_some_iff.mp hanswer
  rw [← map_fst_tryAll calls s]
  exact List.mem_map_of_mem hmem

omit [TokenSource σ] in
/-- Actions that begin alike go on alike. -/
theorem bind_eq {α β : Type} {act : StreamM σ α} {s t : Stream σ} (h : act s = act t) (next : α → StreamM σ β) :
    (act >>= next) s = (act >>= next) t := by
  show EStateM.bind act next s = EStateM.bind act next t
  unfold EStateM.bind
  rw [h]

/-- **A call that reads opens the stream first.** -/
theorem Reads.run_eq {call : StreamCall} (hcall : call.Reads) {s t : Stream σ} (hstart : Stream.start s = .ok () t)
    (hstarted : t.started = true) : call.run s = call.run t := by
  have hopens : Stream.start s = Stream.start t := hstart.trans (Stream.start_of_started hstarted).symm
  cases call with
  | behind k => exact hcall.elim
  | textBetween first last => exact hcall.elim
  | ahead k | typeAhead k => exact bind_eq (Stream.ahead_of_start hstart hstarted k) _
  | consume => exact bind_eq (bind_eq hopens _) _
  | seek place => exact bind_eq (bind_eq hopens _) _

end StreamCall

/-! ## What a call takes -/

namespace Stream

variable {σ : Type} [TokenSource σ] {x : Tape} {source : σ} {s t : Stream σ} {i n : Nat} {α β : Type}

/-- **A stream after a number of pulls.** It holds the tokens that they have given. -/
structure Drawing (x : Tape) (source : σ) (n : Nat) (s : Stream σ) : Prop where
  /-- It reads the tape. -/
  reads : s.Reads x
  /-- So many tokens have come. -/
  size : s.buffer.size = TokenSource.given source n
  /-- So often has been pulled. -/
  source : s.source = TokenSource.pulled source n

/-- **How an action ends that may take tokens**: there have been more pulls, and it fails with what they fail with. -/
def Tries (x : Tape) (source : σ) (n : Nat) (o : Except Abort α) (t : Stream σ) : Prop :=
  ∃ k, t.Drawing x source (n + k) ∧
    failureOf o = (TokenSource.failures (TokenSource.pulled source n) k).map Abort.error

/-- Without a pull nothing fails. -/
theorem Drawing.tries_ok (h : s.Drawing x source n) (a : α) : Tries x source n (.ok a) s := ⟨0, h, rfl⟩

/-- What is tried after other pulls that have not failed. -/
theorem Tries.after {k : Nat} {o : Except Abort α} {u : Stream σ} (h : Tries x source (n + k) o u)
    (hbefore : TokenSource.failures (TokenSource.pulled source n) k = []) : Tries x source n o u := by
  obtain ⟨l, hu, hl⟩ := h
  refine ⟨k + l, Nat.add_assoc n k l ▸ hu, ?_⟩
  rw [TokenSource.failures_add, hbefore, List.nil_append, TokenSource.pulled_add]
  exact hl

/-- What has been answered has been answered without a failure. -/
theorem Tries.of_ok {a : α} (h : Tries x source n (.ok a) t) :
    ∃ k, t.Drawing x source (n + k) ∧ TokenSource.failures (TokenSource.pulled source n) k = [] := by
  obtain ⟨k, ht, hk⟩ := h
  exact ⟨k, ht, List.map_eq_nil_iff.mp hk.symm⟩

/-- A cursor that is moved takes nothing. -/
theorem Drawing.moved (h : s.Drawing x source n) (cursor : Nat) : { s with cursor }.Drawing x source n :=
  ⟨⟨h.reads.get, h.reads.size_le, h.reads.ended, h.reads.feeds⟩, h.size, h.source⟩

/-- **How an action ends that does nothing but take tokens.** -/
structure Takes (x : Tape) (source : σ) (n : Nat) (s : Stream σ) (o : Except Abort α) (t : Stream σ) : Prop where
  /-- There have been more pulls. -/
  tries : Tries x source n o t
  /-- Nothing else has changed. -/
  longer : Longer s t

/-- **First one action, then another.** -/
theorem takes_bind {act : StreamM σ α} {next : α → StreamM σ β} {mid : α → Stream σ → Prop}
    (h : Ends act s (Takes x source n s)) (hmid : Answers act s mid)
    (hnext : ∀ a t m, mid a t → t.Drawing x source m → Ends (next a) t (Takes x source m t)) :
    Ends (act >>= next) s (Takes x source n s) := by
  refine Ends.bind (Ends.and h hmid) ?_ fun e t ht => ⟨ht.1.tries, ht.1.longer⟩
  rintro a t ⟨⟨htries, hlonger⟩, ha⟩
  obtain ⟨k, ht, hk⟩ := htries.of_ok
  exact (hnext a t _ (ha a rfl) ht).mono fun o u hu => ⟨hu.tries.after hk, hlonger.trans hu.longer⟩

/-- **Taking tokens** until one is there to stop at, or the source fails. -/
theorem takes_fetchFrom (hfalters : TokenSource.Falters x source) (h : s.Drawing x source n)
    (hlt : s.buffer.size ≤ x.size) (i fuel : Nat) : Ends (fetchFrom i fuel) s (Takes x source n s) := by
  induction fuel generalizing s n with
  | zero => exact ⟨h.tries_ok _, .refl s⟩
  | succ fuel ih =>
      unfold Ends fetchFrom
      cases hpull : TokenSource.pull s.source with
      | mk answer next =>
          have hdrawn : TokenSource.pull (TokenSource.pulled source n) = (answer, next) := h.source ▸ hpull
          have hnext : next = TokenSource.pulled source (n + 1) := by
            rw [TokenSource.pulled_succ, hdrawn]
          cases answer with
          | error e =>
              -- the pull is lost, and nothing else
              have hgiven := TokenSource.given_succ_of_error hdrawn
              have hreads : { s with source := next }.Reads x := by
                refine ⟨h.reads.get, h.reads.size_le, h.reads.ended, ?_⟩
                have hfeeds := hfalters.feeds_drop (n + 1)
                rwa [hgiven, ← h.size, ← hnext] at hfeeds
              refine ⟨⟨1, ⟨hreads, h.size.trans hgiven.symm, hnext⟩, ?_⟩, ⟨Nat.le_refl _, rfl, rfl⟩⟩
              show _ = (failureOf (TokenSource.pull (TokenSource.pulled source n)).1).map Abort.error
              rw [hdrawn]
              rfl
          | ok t =>
              obtain ⟨hreads, -, heof⟩ := h.reads.push hlt hpull
              have hsize : ({ s with source := next }.push t).buffer.size = s.buffer.size + 1 := by
                simp [Stream.push]
              have hlonger : Longer s ({ s with source := next }.push t) := ⟨by omega, rfl, rfl⟩
              have hdrawing : ({ s with source := next }.push t).Drawing x source (n + 1) := by
                refine ⟨hreads, ?_, hnext⟩
                rw [hsize, TokenSource.given_succ_of_ok hdrawn, h.size]
              have hnone : TokenSource.failures (TokenSource.pulled source n) 1 = [] := by
                show failureOf (TokenSource.pull (TokenSource.pulled source n)).1 = []
                rw [hdrawn]
                rfl
              by_cases hstop : (t.isEof || (decide (i ≤ s.buffer.size) && t.isVisible)) = true
              · simp only [hstop, if_true]
                exact ⟨(hdrawing.tries_ok _).after hnone, hlonger⟩
              · simp only [hstop, if_false, Bool.false_eq_true]
                -- the token is not the end, so that the end is still to come
                have hmore : s.buffer.size ≠ x.size := by
                  intro hend
                  simp [heof, hend] at hstop
                exact (ih hdrawing (by omega)).mono fun o u hu =>
                  ⟨hu.tries.after hnone, hlonger.trans hu.longer⟩

/-- Looking for where to read on. -/
theorem takes_nextStop (hfalters : TokenSource.Falters x source) (h : s.Drawing x source n) (i : Nat) :
    Ends (nextStop i) s (Takes x source n s) := by
  unfold Ends nextStop
  cases s.findStop? i with
  | some j => exact ⟨h.tries_ok _, .refl s⟩
  | none =>
      cases hs : s.ended with
      | true => exact ⟨h.tries_ok _, .refl s⟩
      | false =>
          have hended := h.reads.ended
          have hsize := h.reads.size_le
          rw [hs] at hended
          have hmore : s.buffer.size ≠ x.size + 1 := by simpa using hended.symm
          exact takes_fetchFrom hfalters h (by omega) i _

/-- A token that has been taken is there. -/
theorem tokenAt_of_lt (h : s.Reads x) (hi : i < s.buffer.size) : tokenAt i s = .ok (x.token i) s := by
  refine bind_ok (x := get) rfl ?_
  rw [h.get i hi]
  rfl

/-- Looking at a token that has been taken. -/
theorem takes_tokenAt (h : s.Drawing x source n) (hi : i < s.buffer.size) :
    Ends (tokenAt i) s (Takes x source n s) := by
  unfold Ends
  rw [tokenAt_of_lt h.reads hi]
  exact ⟨h.tries_ok _, .refl s⟩

/-- Going on by a number of visible tokens, from one that has been taken. -/
theorem takes_skipFrom (hfalters : TokenSource.Falters x source) (h : s.Drawing x source n) (hi : i < s.buffer.size)
    (k : Nat) : Ends (skipFrom k i) s (Takes x source n s) := by
  induction k generalizing s i n with
  | zero => exact ⟨h.tries_ok _, .refl s⟩
  | succ k ih =>
      unfold skipFrom
      refine takes_bind (takes_tokenAt h hi) (answers_tokenAt h.reads hi) ?_
      rintro _ _ m ⟨rfl, rfl⟩ ht
      by_cases heof : (x.token i).isEof = true
      · rw [if_pos heof]
        exact ⟨ht.tries_ok _, .refl _⟩
      · rw [if_neg heof]
        refine takes_bind (takes_nextStop hfalters ht (i + 1)) (answers_nextStop ht.reads (i + 1)) ?_
        rintro _ u k ⟨rfl, -, hlt, -⟩ hu
        exact ih hu hlt

/-- **Looking ahead.** -/
theorem takes_ahead (hfalters : TokenSource.Falters x source) (h : s.Drawing x source n) (hs : s.Standing x i)
    (k : Nat) : Ends (ahead k) s (Takes x source n s) := by
  unfold ahead
  refine (Ends.bind_of_ok (start_of_started hs.started)).mpr ?_
  rw [ends_get_bind, hs.cursor]
  refine takes_bind (takes_skipFrom hfalters h hs.lt_size (k - 1)) (answers_skipFrom h.reads hs.lt_size (k - 1)) ?_
  rintro _ t m ⟨rfl, -, hlt, -⟩ ht
  exact takes_tokenAt ht hlt

/-- **How an action ends that may move the cursor**: if it fails, it has not. -/
structure Moves (x : Tape) (source : σ) (n : Nat) (s : Stream σ) (o : Except Abort α) (t : Stream σ) : Prop where
  /-- There have been more pulls. -/
  tries : Tries x source n o t
  /-- A failure leaves the cursor where it was. -/
  stays : ∀ a, o = .error a → Longer s t

/-- What only takes tokens does not move the cursor. -/
theorem Takes.moves {o : Except Abort α} (h : Takes x source n s o t) : Moves x source n s o t :=
  ⟨h.tries, fun _ _ => h.longer⟩

/-- Putting the cursor where reading goes on. -/
theorem moves_moveTo (hfalters : TokenSource.Falters x source) (h : s.Drawing x source n) (i : Nat) :
    Ends (do let cursor ← nextStop i; modify fun s => { s with cursor }) s (Moves x source n s) := by
  refine Ends.bind (takes_nextStop hfalters h i) ?_ fun e t ht => ⟨ht.tries, fun _ _ => ht.longer⟩
  rintro j t ⟨⟨m, ht, hm⟩, -⟩
  exact ⟨⟨m, ht.moved j, hm⟩, nofun⟩

/-- **Moving past the current token.** -/
theorem moves_consume (hfalters : TokenSource.Falters x source) (h : s.Drawing x source n) (hs : s.Standing x i) :
    Ends consume s (Moves x source n s) := by
  unfold consume
  refine (Ends.bind_of_ok (start_of_started hs.started)).mpr ?_
  rw [ends_get_bind, hs.cursor]
  refine (Ends.bind_of_ok (tokenAt_of_lt hs.reads hs.lt_size)).mpr ?_
  by_cases heof : (x.token i).isEof = true
  · rw [if_pos heof]
    exact ⟨h.tries_ok _, nofun⟩
  · rw [if_neg heof]
    exact moves_moveTo hfalters h _

/-- **Moving to a place.** -/
theorem moves_seek (hfalters : TokenSource.Falters x source) (h : s.Drawing x source n) (hs : s.Standing x i)
    (place : Nat) : Ends (seek place) s (Moves x source n s) := by
  unfold seek
  exact (Ends.bind_of_ok (start_of_started hs.started)).mpr (moves_moveTo hfalters h place)

/-! ## What is left after a call -/

/-- **What is left after a call that reads**: if it has been answered, it is as to a head that stands where the stream
stands, and the stream has gone where the head goes; if not, the stream stands where it stood. -/
structure Goes (x : Tape) (source : σ) (n : Nat) (head : Tape.Head) (call : StreamCall)
    (o : Except Abort StreamAnswer) (t : Stream σ) : Prop where
  /-- There have been more pulls, and their failures are those of the call. -/
  tries : Tries x source n o t
  /-- An answer is that of the head. -/
  ok : ∀ a, o = .ok a → a = x.answer head call ∧ t.Standing x (x.move head call).place
  /-- A failure leaves the cursor where it was. -/
  error : ∀ e, o = .error e → t.Standing x head.place

/-- An action that has been done, and the answer that the call makes of it. -/
theorem goes_of_moves {act : StreamM σ α} {f : α → StreamAnswer} {head : Tape.Head} {call : StreamCall}
    (hs : s.Standing x head.place) (hmoves : Ends act s (Moves x source n s))
    (hanswers : Answers act s fun a t => f a = x.answer head call ∧ t.Standing x (x.move head call).place) :
    Ends (act >>= fun a => pure (f a)) s (Goes x source n head call) := by
  refine Ends.bind (Ends.and hmoves hanswers) ?_ ?_
  · rintro a t ⟨⟨htries, -⟩, ha⟩
    refine ⟨htries, ?_, nofun⟩
    rintro _ ⟨⟩
    exact ha a rfl
  · rintro e t ⟨⟨⟨m, ht, hm⟩, hstays⟩, -⟩
    exact ⟨⟨m, ht, hm⟩, nofun, fun _ _ => hs.longer ht.reads (hstays e rfl)⟩

/-- **Each call that reads.** -/
theorem goes_run (hfalters : TokenSource.Falters x source) {head : Tape.Head} (h : s.Drawing x source n)
    (hs : s.Standing x head.place) {call : StreamCall} (hcall : call.Reads) :
    Ends call.run s (Goes x source n head call) := by
  have hfacing : s.Facing x head.place := .standing hs
  cases call with
  | behind k => exact hcall.elim
  | textBetween first last => exact hcall.elim
  | ahead k =>
      refine goes_of_moves hs ((takes_ahead hfalters h hs k).mono fun _ _ => Takes.moves) ?_
      refine (answers_ahead hfacing k).mono ?_
      rintro _ t ⟨rfl, ht⟩
      rw [Tape.answer, Tape.ahead_eq, hs.stop_eq]
      exact ⟨rfl, ht⟩
  | typeAhead k =>
      refine goes_of_moves hs ((takes_ahead hfalters h hs k).mono fun _ _ => Takes.moves) ?_
      refine (answers_ahead hfacing k).mono ?_
      rintro _ t ⟨rfl, ht⟩
      rw [Tape.answer, Tape.ahead_eq, hs.stop_eq]
      exact ⟨rfl, ht⟩
  | consume =>
      refine goes_of_moves hs (moves_consume hfalters h hs) ((answers_consume hfacing).mono fun _ t ht => ⟨rfl, ?_⟩)
      have hplace : (x.move head .consume).place = x.stop (head.place + 1) := by
        rw [Tape.move, Tape.placeAhead_eq, hs.stop_eq]
        -- the head moves to the stop that the stream moves to
        rfl
      rwa [hplace]
  | seek place =>
      refine goes_of_moves hs (moves_seek hfalters h hs place) ?_
      refine (answers_seek hfacing place).mono fun _ t ht => ⟨rfl, ?_⟩
      have hplace : (x.move head (.seek place)).place = x.stop place := by
        rw [Tape.move]
        exact Tape.placeAhead_eq place 1
      rwa [hplace]

/-- **What is left after several calls that read**: those that have been answered have been answered as by a head that
stands where the stream stands, and the stream has gone where the head has gone. -/
theorem goes_tryAll (hfalters : TokenSource.Falters x source) {calls : List StreamCall}
    (hcalls : ∀ call ∈ calls, call.Reads) {head : Tape.Head} (h : s.Drawing x source n) (hs : s.Standing x head.place) :
    let tried := StreamCall.tryAll calls s
    (∃ m head', tried.2.Drawing x source m ∧ tried.2.Standing x (Tape.Head.place head')) ∧
    (StreamCall.answered tried.1).map Prod.snd = x.replies head ((StreamCall.answered tried.1).map Prod.fst) := by
  induction calls generalizing s n head with
  | nil => exact ⟨⟨n, head, h, hs⟩, rfl⟩
  | cons call rest ih =>
      -- A call that fails has moved nothing, so that the head goes on from where it was.
      obtain ⟨hcall, hrest⟩ := List.forall_mem_cons.mp hcalls
      have hgoes := goes_run hfalters h hs hcall
      cases hrun : call.run s with
      | ok a t =>
          obtain ⟨⟨k, ht, -⟩, hok, -⟩ := hgoes.of_ok hrun
          obtain ⟨ha, hstanding⟩ := hok a rfl
          obtain ⟨hleft, hreplies⟩ := ih hrest ht hstanding
          simp only [StreamCall.tryAll, StreamCall.attempt, hrun]
          refine ⟨hleft, ?_⟩
          show a :: _ = x.replies head (call :: _)
          rw [Tape.replies, ← ha]
          exact congrArg (a :: ·) hreplies
      | error e t =>
          obtain ⟨⟨k, ht, -⟩, -, herror⟩ := hgoes.of_error hrun
          obtain ⟨hleft, hreplies⟩ := ih hrest ht (herror e rfl)
          simp only [StreamCall.tryAll, StreamCall.attempt, hrun]
          exact ⟨hleft, hreplies⟩

/-- A call that reads fails with what the pulls fail with that it has made. -/
theorem tries_attempt (hfalters : TokenSource.Falters x source) {head : Tape.Head} (h : s.Drawing x source n)
    (hs : s.Standing x head.place) {call : StreamCall} (hcall : call.Reads) :
    Tries x source n (call.attempt s).1 (call.attempt s).2 := by
  have hgoes := goes_run hfalters h hs hcall
  unfold StreamCall.attempt
  cases hrun : call.run s with
  | ok a t => exact (hgoes.of_ok hrun).tries
  | error e t => exact (hgoes.of_error hrun).tries

/-! ## Opening a stream -/

/-- Where the source fails, there is nothing to stop at among what has been taken. -/
theorem unmet_fetchFrom (h : s.Reads x) (hlt : s.buffer.size ≤ x.size)
    (hnot : ∀ k, i ≤ k → k < s.buffer.size → isStop (x.token k) = false) (fuel : Nat) :
    Ends (fetchFrom i fuel) s fun o t => ∀ a, o = .error a →
      ∀ k, i ≤ k → k < t.buffer.size → isStop (x.token k) = false := by
  induction fuel generalizing s with
  | zero => rintro a ⟨⟩
  | succ fuel ih =>
      unfold Ends fetchFrom
      cases hpull : TokenSource.pull s.source with
      | mk answer next =>
          cases answer with
          | error e => exact fun _ _ => hnot
          | ok t =>
              obtain ⟨hreads, htoken, heof⟩ := h.push hlt hpull
              have hsize : ({ s with source := next }.push t).buffer.size = s.buffer.size + 1 := by
                simp [Stream.push]
              by_cases hstop : (t.isEof || (decide (i ≤ s.buffer.size) && t.isVisible)) = true
              · simp only [hstop, if_true]
                rintro a ⟨⟩
              · simp only [hstop, if_false, Bool.false_eq_true]
                have hmore : s.buffer.size ≠ x.size := by
                  intro hend
                  simp [heof, hend] at hstop
                -- a token that is no stop has been added to those among which there is none
                refine ih hreads (by omega) fun k hik hk => ?_
                rcases Nat.lt_or_ge k s.buffer.size with hold | hnew
                · exact hnot k hik hold
                · obtain rfl : k = s.buffer.size := by omega
                  simp only [hik, decide_true, Bool.true_and] at hstop
                  rw [← htoken]
                  simpa [isStop, Token.isVisible, Token.isEof, and_comm, TokenType.isEof] using hstop

/-- A stream that is being opened reads what its source feeds. -/
theorem Drawing.opening (hfalters : TokenSource.Falters x source) :
    { ofSource source with started := true }.Drawing x source 0 := by
  have hfresh := reads_ofSource (x := x) (hfalters.feeds_drop 0)
  exact ⟨⟨hfresh.get, hfresh.size_le, hfresh.ended, hfresh.feeds⟩, rfl, rfl⟩

/-- Opening a stream takes tokens. -/
theorem tries_start (hfalters : TokenSource.Falters x source) :
    Ends start (ofSource source) (Tries x source 0) := by
  unfold start
  show Ends _ (ofSource source) _
  rw [ends_get_bind, if_neg (by simp [ofSource]), ends_set_bind]
  exact (moves_moveTo hfalters (.opening hfalters) 0).mono fun _ _ => Moves.tries

/-- Opening a stream fails only before the first place to stop at has been taken. -/
theorem unmet_start (hfalters : TokenSource.Falters x source) :
    Ends start (ofSource source) fun o t => ∀ a, o = .error a → t.buffer.size ≤ x.stop 0 := by
  have hreads := (Drawing.opening hfalters).reads
  unfold start
  show Ends _ (ofSource source) _
  rw [ends_get_bind, if_neg (by simp [ofSource]), ends_set_bind]
  refine Ends.bind (?_ : Ends _ _ fun o t => ∀ a, o = .error a → t.buffer.size ≤ x.stop 0) ?_ ?_
  · -- nothing has been taken yet, so that tokens are taken at once
    have hfetch := unmet_fetchFrom (i := 0) hreads (Nat.zero_le _) (fun k _ hk => absurd hk (Nat.not_lt_zero k))
      (TokenSource.bound source + 1)
    refine Ends.of_eq (y := fetchFrom 0 (TokenSource.bound source + 1)) rfl ?_
    refine hfetch.mono fun o t ht a ha => Nat.le_of_not_lt fun hlt => ?_
    have hstop := ht a ha (x.stop 0) (Nat.zero_le _) hlt
    rw [x.isStop_stop] at hstop
    cases hstop
  · rintro j t - a ⟨⟩
  · rintro e t ht a ⟨⟩
    exact ht e rfl

/-- **A stream is opened** if its source gives the first visible token without a failure. -/
theorem exists_opened (hfalters : TokenSource.Falters x source)
    (hopening : TokenSource.failures source (x.placeAhead 0 1 + 1) = []) :
    ∃ s m, start (ofSource source) = .ok () s ∧ s.Standing x (x.placeAhead 0 1) ∧ s.Drawing x source m ∧
      TokenSource.failures source m = [] := by
  have hplace : x.placeAhead 0 1 = x.stop 0 := Tape.placeAhead_eq 0 1
  have hfacing : (ofSource source).Facing x (x.stop 0) := .fresh (reads_ofSource (hfalters.feeds_drop 0)) rfl rfl
  cases hstart : start (ofSource source) with
  | ok u s =>
      obtain ⟨m, hs, hm⟩ := ((tries_start hfalters).of_ok hstart).of_ok
      exact ⟨s, 0 + m, rfl, hplace ▸ (answers_start hfacing).of_ok hstart, hs, (Nat.zero_add m).symm ▸ hm⟩
  | error a s =>
      -- the failure would be among the pulls before the first visible token, or come after it
      obtain ⟨m, hs, hm⟩ := (tries_start hfalters).of_error hstart
      have hsize := (unmet_start hfalters).of_error hstart a rfl
      rw [Nat.zero_add] at hs
      rcases Nat.lt_or_ge (x.placeAhead 0 1 + 1) m with hlate | hearly
      · have hgiven : TokenSource.given source _ ≤ TokenSource.given source _ :=
          TokenSource.given_mono (Nat.le_of_lt hlate)
        rw [TokenSource.given_eq_of_failures hopening, ← hs.size] at hgiven
        omega
      · obtain ⟨d, hd⟩ := Nat.exists_eq_add_of_le hearly
        rw [hd, TokenSource.failures_add] at hopening
        have hnone : TokenSource.failures source m = [] := (List.append_eq_nil_iff.mp hopening).1
        have hfailed : failureOf (Except.error (α := Unit) a) = (TokenSource.failures source m).map Abort.error := hm
        rw [hnone] at hfailed
        cases hfailed

/-- **A call that reads opens a stream first.** -/
theorem attempt_of_start {call : StreamCall} (hcall : call.Reads) (hstart : start s = .ok () t)
    (hstarted : t.started = true) : call.attempt s = call.attempt t := by
  rw [StreamCall.attempt, StreamCall.attempt, hcall.run_eq hstart hstarted]

/-- Several calls that read open a stream first. -/
theorem tryAll_of_start {calls : List StreamCall} (hcalls : ∀ call ∈ calls, call.Reads) (hne : calls ≠ [])
    (hstart : start s = .ok () t) (hstarted : t.started = true) :
    StreamCall.tryAll calls s = StreamCall.tryAll calls t := by
  cases calls with
  | nil => exact absurd rfl hne
  | cons call rest =>
      have hcall := hcalls call List.mem_cons_self
      rw [StreamCall.tryAll, StreamCall.tryAll, attempt_of_start hcall hstart hstarted]

/-- **Every call that reads**, whatever calls have been made before: it fails with what the pulls fail with that it has
made. -/
theorem tries_among (hfalters : TokenSource.Falters x source)
    (hopening : TokenSource.failures source (x.placeAhead 0 1 + 1) = []) {before : List StreamCall} {call : StreamCall}
    (hbefore : ∀ call ∈ before, call.Reads) (hcall : call.Reads) :
    let s := (StreamCall.tryAll before (ofSource source)).2
    ∃ m, s.source = TokenSource.pulled source m ∧ Tries x source m (call.attempt s).1 (call.attempt s).2 := by
  obtain ⟨s, m, hstart, hs, hdrawing, hnone⟩ := exists_opened hfalters hopening
  have hopened : s.Standing x x.opening.place := hs
  by_cases hne : before = []
  · -- the call opens the stream
    subst hne
    have hcalled := tries_attempt hfalters hdrawing hopened hcall
    refine ⟨0, rfl, ?_⟩
    show Tries x source 0 (call.attempt (ofSource source)).1 (call.attempt (ofSource source)).2
    rw [attempt_of_start hcall hstart hs.started]
    rw [← Nat.zero_add m] at hcalled
    exact hcalled.after hnone
  · rw [tryAll_of_start hbefore hne hstart hs.started]
    obtain ⟨⟨k, head, hk, hstanding⟩, -⟩ := goes_tryAll hfalters hbefore hdrawing hopened
    exact ⟨k, hk.source, tries_attempt hfalters hk hstanding hcall⟩

/-- **Calls over a source that never fails** are answered as by a head over the tape. -/
theorem exists_runAll (hgives : TokenSource.Gives x source) {calls : List StreamCall}
    (hcalls : ∀ call ∈ calls, call.Reads) :
    ∃ t, StreamCall.runAll calls (ofSource source) = .ok (x.replies x.opening calls) t := by
  cases calls with
  | nil => exact ⟨_, rfl⟩
  | cons call rest =>
      obtain ⟨s, hstart, hs⟩ := mirrors_start hgives
      obtain ⟨t, hrun, -⟩ := hs.runAll hgives (call :: rest)
      refine ⟨t, ?_⟩
      rw [← hrun]
      show EStateM.bind call.run _ (ofSource source) = EStateM.bind call.run _ s
      unfold EStateM.bind
      rw [(hcalls call List.mem_cons_self).run_eq hstart hs.standing.started]

/-- What is ahead is a token to stop at. -/
theorem isStop_ahead (i k : Nat) : isStop (x.ahead i k) = true := by
  rw [Tape.ahead_eq]
  generalize k - 1 = n
  generalize hj : x.stop i = j
  have hstop : isStop (x.token j) = true := hj ▸ x.isStop_stop
  clear hj
  induction n generalizing j with
  | zero => exact hstop
  | succ n ih => exact ih _ x.isStop_stop

/-- A token that a head answers with, to a call that reads, is one to stop at. -/
theorem isStop_of_mem_replies {calls : List StreamCall} {head : Tape.Head} {a : Token}
    (ha : .token a ∈ x.replies head calls) : isStop a = true := by
  induction calls generalizing head with
  | nil => cases ha
  | cons call rest ih =>
      rcases List.mem_cons.mp ha with hfirst | hlater
      · cases call with
        | ahead k =>
            cases hfirst
            exact isStop_ahead head.place k
        | _ => cases hfirst
      · exact ih hlater

/-- **A failed call leaves no trace.**  Over a source that may fail at any pull, but gives the first visible token
without a failure, calls that look ahead or move the cursor are made one after the other, whatever becomes of each.
Each of them fails with what the pulls fail with that it makes, and with nothing else.  The calls that are answered are
answered as a stream would answer them that is asked nothing else, over any source that gives the same tokens and never
fails; and lookahead shows visible tokens and the end alone. -/
theorem failed_calls_leave_no_trace (hfalters : TokenSource.Falters x source)
    (hopening : TokenSource.failures source (x.placeAhead 0 1 + 1) = []) {calls : List StreamCall}
    (hcalls : ∀ call ∈ calls, call.Reads) :
    (∀ before call after, calls = before ++ call :: after →
      let s := (StreamCall.tryAll before (ofSource source)).2
      ∃ m n, s.source = TokenSource.pulled source m ∧ (call.attempt s).2.source = TokenSource.pulled source (m + n) ∧
        failureOf (call.attempt s).1 = (TokenSource.failures (TokenSource.pulled source m) n).map Abort.error) ∧
    let answered := StreamCall.answered (StreamCall.tryAll calls (ofSource source)).1
    (∀ {τ : Type} [TokenSource τ] (steady : τ), TokenSource.Gives x steady → ∃ t,
      StreamCall.runAll (answered.map Prod.fst) (ofSource steady) = .ok (answered.map Prod.snd) t) ∧
    ∀ a, .token a ∈ answered.map Prod.snd → a.isVisible = true ∨ a.isEof = true := by
  constructor
  -- The calls before one leave the stream so that it makes the pulls that the call needs.
  · rintro before call after rfl
    obtain ⟨hbefore, hrest⟩ := List.forall_mem_append.mp hcalls
    obtain ⟨m, hm, n, hn, hfailures⟩ := tries_among hfalters hopening hbefore (hrest call List.mem_cons_self)
    exact ⟨m, n, hm, hn.source, hfailures⟩
  · intro answered
    have hreplies : answered.map Prod.snd = x.replies x.opening (answered.map Prod.fst) := by
      by_cases hne : calls = []
      · simp only [answered, hne]
        rfl
      · obtain ⟨s, m, hstart, hs, hdrawing, -⟩ := exists_opened hfalters hopening
        simp only [answered, tryAll_of_start hcalls hne hstart hs.started]
        have hopened : s.Standing x x.opening.place := hs
        exact (goes_tryAll hfalters hcalls hdrawing hopened).2
    refine ⟨fun steady hsteady => ?_, fun a ha => ?_⟩
    · rw [hreplies]
      exact exists_runAll hsteady fun call hcall => hcalls call (StreamCall.mem_of_mem_answered hcall)
    · rw [hreplies] at ha
      exact (Bool.or_eq_true _ _).mp (isStop_of_mem_replies ha)

end Stream

/-! ## A list that loses a token -/

namespace ListedTokens

variable {s : ListedTokens} {k : Nat}

/-- A list of tokens that is made to fail loses one token with each pull, the one that fails included. -/
theorem pulled_of_failIn (h : s.failIn = some k) (n : Nat) : TokenSource.pulled s n =
    { s with rest := s.rest.drop n, failIn := if n ≤ k then some (k - n) else none } := by
  induction n with
  | zero => simp [TokenSource.pulled, ← h]
  | succ n ih =>
      have htail : s.rest.drop (n + 1) = (s.rest.drop n).tail := List.tail_drop.symm
      rw [TokenSource.pulled_succ, ih]
      show (ListedTokens.pull _).2 = _
      rcases Nat.lt_trichotomy n k with hlt | rfl | hgt
      · obtain ⟨d, hd⟩ : ∃ d, k - n = d + 1 := ⟨k - n - 1, by omega⟩
        have hd' : k - (n + 1) = d := by omega
        rw [if_pos (Nat.le_of_lt hlt), if_pos (Nat.succ_le_of_lt hlt), htail, hd, hd']
        cases s.rest.drop n <;> rfl
      · rw [if_pos (Nat.le_refl n), if_neg (by omega), htail, Nat.sub_self]
        rfl
      · rw [if_neg (by omega), if_neg (by omega), htail]
        cases s.rest.drop n <;> rfl

/-- What such a list gives at a pull. -/
theorem pull_of_failIn (h : s.failIn = some k) (n : Nat) : (TokenSource.pull (TokenSource.pulled s n)).1 =
    if n = k then .error .cancelled else .ok (s.rest[n]?.getD s.last) := by
  have hget : s.rest[n]? = (s.rest.drop n)[0]? := by simp
  rw [pulled_of_failIn h, hget]
  show (ListedTokens.pull _).1 = _
  rcases Nat.lt_trichotomy n k with hlt | rfl | hgt
  · obtain ⟨d, hd⟩ : ∃ d, k - n = d + 1 := ⟨k - n - 1, by omega⟩
    rw [if_pos (Nat.le_of_lt hlt), if_neg (Nat.ne_of_lt hlt), hd]
    cases s.rest.drop n <;> rfl
  · rw [if_pos (Nat.le_refl n), if_pos rfl, Nat.sub_self]
    rfl
  · rw [if_neg (by omega), if_neg (by omega)]
    cases s.rest.drop n <;> rfl

/-- How many of the first pulls of such a list give a token. -/
theorem given_of_failIn (h : s.failIn = some k) (n : Nat) :
    TokenSource.given s n = if n ≤ k then n else n - 1 := by
  induction n with
  | zero => simp [TokenSource.given]
  | succ n ih =>
      rw [TokenSource.given, ih, pull_of_failIn h]
      rcases Nat.lt_trichotomy n k with hlt | rfl | hgt
      · rw [if_pos (Nat.le_of_lt hlt), if_neg (Nat.ne_of_lt hlt), if_pos (Nat.succ_le_of_lt hlt)]
        rfl
      · simp [Except.isOk, Except.toBool]
      · have hle : ¬ n ≤ k := by omega
        have hle' : ¬ n + 1 ≤ k := by omega
        rw [if_neg hle, if_neg (Nat.ne_of_gt hgt), if_neg hle']
        show n - 1 + 1 = n + 1 - 1
        omega

/-- **A list of tokens that is made to fail falters** over the tape of its tokens without the one that is lost. -/
theorem falters {x : Tape} (h : s.failIn = some k) (hbody : s.rest.eraseIdx k = x.body) (hlast : s.last = x.last) :
    TokenSource.Falters x s where
  token n a hn ha := by
    rw [given_of_failIn h] at hn ⊢
    rw [pull_of_failIn h] at ha
    have hne : n ≠ k := by
      rintro rfl
      rw [if_pos rfl] at ha
      cases ha
    rw [if_neg hne] at ha
    obtain rfl := Except.ok.inj ha
    have hget : s.rest[n]? = x.body[if n ≤ k then n else n - 1]? := by
      rw [← hbody]
      rcases Nat.lt_or_gt_of_ne hne with hlt | hgt
      · rw [if_pos (Nat.le_of_lt hlt), List.getElem?_eraseIdx_of_lt hlt]
      · rw [if_neg (by omega), List.getElem?_eraseIdx_of_ge (by omega), Nat.sub_add_cancel (by omega)]
    rw [hget, Tape.all]
    rcases Nat.lt_or_ge (if n ≤ k then n else n - 1) x.body.length with hlt | hge
    · rw [List.getElem?_append_left hlt, List.getElem?_eq_getElem hlt, Option.getD_some]
    · have heq : (if n ≤ k then n else n - 1) = x.body.length := Nat.le_antisymm hn hge
      rw [heq, List.getElem?_eq_none (Nat.le_refl _), Option.getD_none, hlast]
      simp
  bound n := by
    rw [given_of_failIn h, pulled_of_failIn h]
    show x.body.length ≤ _ + (s.rest.drop n).length
    rw [← hbody, List.length_eraseIdx, List.length_drop]
    split <;> split <;> omega

end ListedTokens

namespace Faltering

/-- The source of two spaced tokens, with a third one that is lost between them. -/
def source : ListedTokens where
  rest := Spaced.tape.body.insertIdx 2 { ty := ⟨3⟩, text := "lost" }
  last := Spaced.tape.last
  failIn := some 2

/-- Looking ahead twice, and moving to and fro. -/
def calls : List StreamCall := [.ahead 2, .ahead 2, .consume, .typeAhead 2, .seek 0, .ahead 1]

/-- The first look ahead gets no further than the token that is lost.  The others find the two that are left. -/
theorem failed_calls_leave_no_trace_lost :
    StreamCall.failed (StreamCall.tryAll calls (.ofSource source)).1 = [.error .cancelled] ∧
    StreamCall.answered (StreamCall.tryAll calls (.ofSource source)).1 =
      [(.ahead 2, .token (Spaced.tape.token 3)), (.consume, .moved), (.typeAhead 2, .type .eof), (.seek 0, .moved),
        (.ahead 1, .token (Spaced.tape.token 1))] ∧
    ∃ t, StreamCall.runAll [.ahead 2, .consume, .typeAhead 2, .seek 0, .ahead 1] (.ofSource Spaced.source) =
      .ok [.token (Spaced.tape.token 3), .moved, .type .eof, .moved, .token (Spaced.tape.token 1)] t := by
  have hanswered : StreamCall.answered (StreamCall.tryAll calls (.ofSource source)).1 =
      [(.ahead 2, .token (Spaced.tape.token 3)), (.consume, .moved), (.typeAhead 2, .type .eof), (.seek 0, .moved),
        (.ahead 1, .token (Spaced.tape.token 1))] := by decide +kernel
  have hfailed : StreamCall.failed (StreamCall.tryAll calls (.ofSource source)).1 = [.error .cancelled] := by
    decide +kernel
  have hopening : TokenSource.failures source (Spaced.tape.placeAhead 0 1 + 1) = [] := by decide +kernel
  have hfalters : TokenSource.Falters Spaced.tape source := ListedTokens.falters rfl rfl rfl
  have hcalls : ∀ call ∈ calls, call.Reads := by decide
  obtain ⟨-, hsteady, -⟩ := Stream.failed_calls_leave_no_trace hfalters hopening hcalls
  have hanswers := hsteady Spaced.source Spaced.gives_source
  simp only [hanswered] at hanswers
  exact ⟨hfailed, hanswered, hanswers⟩

/-- A hidden token and a visible one. -/
def indented : Tape where
  body := [{ ty := ⟨3⟩, text := " ", channel := hiddenChannel }, { ty := ⟨2⟩, text := "y" }]
  last := .endOfInput 3
  body_inner := by decide
  last_isEof := rfl

/-- The source of these two, with a third one that is lost between them. -/
def early : ListedTokens where
  rest := indented.body.insertIdx 1 { ty := ⟨1⟩, text := "x" }
  last := indented.last
  failIn := some 1

/-- **After a failure while the stream is opened, lookahead shows a hidden token.**  The source gives the hidden token,
fails, and works again.  The first look ahead fails.  Then the stream counts as opened, with the cursor on the hidden
token; over a source that never fails it would be on the other one. -/
theorem opening_fails : TokenSource.Falters indented early ∧
    StreamCall.failed (StreamCall.tryAll [.ahead 1, .ahead 1] (.ofSource early)).1 = [.error .cancelled] ∧
    StreamCall.answered (StreamCall.tryAll [.ahead 1, .ahead 1] (.ofSource early)).1 =
      [(.ahead 1, .token (indented.token 0))] ∧
    (indented.token 0).isVisible = false ∧ (indented.token 0).isEof = false ∧
    ∀ steady : ListedTokens, TokenSource.Gives indented steady → ∃ t,
      StreamCall.runAll [.ahead 1] (.ofSource steady) = .ok [.token (indented.token 1)] t := by
  refine ⟨ListedTokens.falters rfl rfl rfl, by decide +kernel, by decide +kernel, by decide, by decide, ?_⟩
  intro steady hsteady
  have hreplies : indented.replies indented.opening [.ahead 1] = [.token (indented.token 1)] := by decide +kernel
  have hcalls : ∀ call ∈ [StreamCall.ahead 1], call.Reads := by decide
  obtain ⟨t, ht⟩ := Stream.exists_runAll hsteady hcalls
  exact ⟨t, hreplies ▸ ht⟩

end Faltering

end TreeProjection
