import TreeProjection.Proofs.Ordinary

/-! # What a parse has consumed

The leaves of a parse tree are the input up to where the parse has come.  However often a recognizer has tried,
dropped, made up or passed over tokens, with either strategy and from any source, the tree holds each visible token
before the final place of the input once, in order.

* `TokenSource.RunsOut` — a source that gives the end of the input after no more tokens than it says.
* `TokenSource.RunsOut.exists_feeds` — such a source gives the tokens of a tape.
* `Stream.passed` — the visible tokens that a stream has passed.
* `Recognizer.OrdinaryRule.read_eq_passed` — the leaves of the tree are those tokens. -/

namespace TreeProjection

open ParseNode (View)

/-- The visible tokens that a stream has passed: those of the buffer before the cursor. -/
def Stream.passed {σ : Type} (s : Stream σ) : List Token :=
  (s.buffer.toList.take s.cursor).filter Token.isVisible

variable {σ : Type} [TokenSource σ]

/-! ## Sources -/

/-- **A source runs out**: with each token that it gives, the bound on what is still to come goes down, until it gives
the end of the input.  It may also fail on the way; what it does after a failure is left open. -/
inductive TokenSource.RunsOut : σ → Prop where
  /-- It does so if it does after each token that is not the end. -/
  | intro (source : σ)
    (bounded : ∀ t next, pull source = (.ok t, next) → t.isEof = false →
      bound next < bound source)
    (rest : ∀ t next, pull source = (.ok t, next) → t.isEof = false → RunsOut next) :
    RunsOut source

/-- **A source that runs out gives the tokens of a tape.** -/
theorem TokenSource.RunsOut.exists_feeds {source : σ} (h : RunsOut source) :
    ∃ x : Tape, Feeds x.all source := by
  induction h with
  | intro source bounded _ ih =>
      -- a tape that holds nothing but an end, for a source that gives no token before it
      have hend : ∀ last : Token, last.isEof = true →
          (∀ t next, pull source = (.ok t, next) → t = last) → ∃ x : Tape, Feeds x.all source :=
        fun last hlast hpull => ⟨⟨[], last, nofun, hlast⟩, Nat.zero_le _,
          fun t next h => ⟨hpull t next h, trivial⟩⟩
      cases hpull : pull source with
      | mk answer next =>
          cases answer with
          | error e =>
              refine hend (.endOfInput 0) rfl fun t next' h => ?_
              rw [hpull] at h
              cases h
          | ok t =>
              by_cases ht : t.isEof = true
              · refine hend t ht fun t' next' h => ?_
                rw [hpull] at h
                cases h
                rfl
              · have hinner : t.isEof = false := by simpa using ht
                obtain ⟨x, hx⟩ := ih t next hpull hinner
                have hlength : x.body.length ≤ bound next := hx.size_le_bound
                refine ⟨⟨t :: x.body, x.last, ?_, x.last_isEof⟩, ?_, fun t' next' h => ?_⟩
                · exact List.forall_mem_cons.mpr ⟨hinner, x.body_inner⟩
                · have := bounded t next hpull hinner
                  rw [List.append_eq, List.length_append, List.length_singleton]
                  omega
                · rw [hpull] at h
                  cases h
                  exact ⟨rfl, hx⟩

/-- A list of tokens fails only where it is made to. -/
theorem ListedTokens.pull_error {s : ListedTokens} {e : Error}
    (h : (TokenSource.pull s).1 = .error e) : e = .cancelled := by
  change s.pull.1 = _ at h
  unfold ListedTokens.pull at h
  split at h
  · cases h
    rfl
  · cases hrest : s.rest with
    | nil =>
        rw [hrest] at h
        cases h
    | cons t rest =>
        rw [hrest] at h
        cases h

/-- A list of tokens that is followed by the end of the input runs out. -/
theorem ListedTokens.runsOut {s : ListedTokens} (h : s.last.isEof = true) : TokenSource.RunsOut s := by
  generalize hn : s.rest.length = n
  -- induction on how many tokens are left: each inner token leaves one fewer, and then the end comes
  induction n generalizing s with
  | zero =>
      have hrest : s.rest = [] := List.length_eq_zero_iff.mp hn
      have hlast : ∀ t next, TokenSource.pull s = (.ok t, next) → t = s.last := by
        intro t next hpull
        change s.pull = _ at hpull
        unfold ListedTokens.pull at hpull
        rw [hrest] at hpull
        split at hpull
        · cases hpull
        · cases hpull
          rfl
      refine .intro s (fun t next hpull hinner => ?_) fun t next hpull hinner => ?_
      all_goals
        rw [hlast t next hpull, h] at hinner
        cases hinner
  | succ n ih =>
      have hnext : ∀ t next, TokenSource.pull s = (.ok t, next) →
          next.rest.length = n ∧ next.last = s.last := by
        intro t next hpull
        change s.pull = _ at hpull
        unfold ListedTokens.pull at hpull
        cases hrest : s.rest with
        | nil =>
            rw [hrest] at hn
            cases hn
        | cons u rest =>
            rw [hrest] at hpull hn
            split at hpull
            · cases hpull
            · cases hpull
              exact ⟨Nat.succ.inj hn, rfl⟩
      refine .intro s (fun t next hpull _ => ?_) fun t next hpull _ => ?_
      · change next.rest.length < s.rest.length
        rw [(hnext t next hpull).1, hn]
        exact Nat.lt_succ_self n
      · exact ih ((congrArg Token.isEof (hnext t next hpull).2).trans h) (hnext t next hpull).1

/-! ## Streams -/

/-- The tokens that a stream at a place has left behind are those of the tape up to there. -/
theorem Stream.Standing.take_buffer {x : Tape} {s : Stream σ} {i : Nat} (h : s.Standing x i) :
    s.buffer.toList.take i = (List.range' 0 i).map x.token := by
  refine List.ext_getElem? fun k => ?_
  rw [List.getElem?_take, List.getElem?_map]
  by_cases hk : k < i
  · rw [if_pos hk, List.getElem?_range' hk, Array.getElem?_toList,
      h.reads.get k (Nat.lt_trans hk h.lt_size)]
    simp
  · rw [if_neg hk, List.getElem?_eq_none (by simpa using hk), Option.map_none]

/-- What a stream at a place has passed are the visible tokens of the tape up to there. -/
theorem Stream.Standing.passed_eq {x : Tape} {s : Stream σ} {i : Nat} (h : s.Standing x i) :
    s.passed = x.between 0 i := by
  rw [Stream.passed, h.cursor, h.take_buffer, Tape.between, Nat.sub_zero]

/-- The tokens of a buffer carry their places there. -/
theorem Stream.Reads.index_get {x : Tape} {s : Stream σ} (h : s.Reads x) {i : Nat} {t : Token}
    (ht : s.buffer[i]? = some t) : t.index = some i := by
  have hi : i < s.buffer.size := by
    refine Nat.lt_of_not_le fun hle => ?_
    rw [Array.getElem?_eq_none hle] at ht
    cases ht
  have hle : i ≤ x.size := by
    have := h.size_le
    omega
  rw [h.get i hi] at ht
  cases ht
  rw [Tape.token_index, Nat.min_eq_left hle]

/-! ## Whole parses -/

/-- **A parse from its outermost rule on**, with any strategy that does all that it is there for. -/
theorem Recognizer.OrdinaryRule.runs_whole {e : Recognizer Unit} (h : e.OrdinaryRule) {x : Tape}
    {p : Parser σ} (hreads : p.input.Reads x) (hstarted : p.input.started = false)
    (hacting : p.speculating = 0) (hnoted : p.strategy.noted = false)
    (hdenied : p.strategy.denied = []) (hframes : p.frames = []) (htree : p.tree = {}) :
    Runs e.run p (fun _ => True) fun o q => o = .ok () ∧ ∃ node vs, q.Whole x node vs := by
  obtain ⟨r, body, rfl, hbody⟩ := h
  rw [Parser.run_rule_pure]
  refine (Parser.runs_rule_entry (.fresh hreads hstarted rfl) hacting hnoted hdenied hframes htree
    trivial (fun p₁ h₁ => (hbody.runs h₁.ready fun _ => trivial).mono fun _ _ hq =>
      hq.bodyEnd fun _ => trivial)).mono ?_
  rintro _ q ⟨rfl, p₁, node, vs, rs, hentered, -, hroot, hsize, hshows, hmoves, -⟩
  refine ⟨rfl, node, vs, hroot, hsize, hshows, hmoves.standing, ?_⟩
  rw [← hentered.index]
  exact hmoves.walk

/-- **The leaves of a parse tree are the consumed input.** A parse that is not given up answers, and its tree holds, in
order, the visible tokens before the final place of the input, each of which carries its place. -/
theorem Recognizer.OrdinaryRule.read_eq_passed {e : Recognizer Unit} (h : e.OrdinaryRule)
    {source : σ} (hsource : TokenSource.RunsOut source) {strategy : Strategy}
    (hstrategy : strategy = .default ∨ strategy = .anchored) (language : Language)
    (recursionLimit : Option Nat) (listeners : Nat) {p : Parser σ}
    (hp : p = { input := .ofSource source, language, strategy, recursionLimit, listeners }) :
    (∀ q, e.run p = .ok () q →
      (∃ v, q.tree.view? = some v ∧ View.read [v] = q.input.passed) ∧
      q.index < q.input.buffer.size ∧
      ∀ (i : Nat) (t : Token), q.input.buffer[i]? = some t → t.index = some i) ∧
    ∀ exception q, e.run p ≠ .error (.recognition exception) q := by
  subst hp
  obtain ⟨x, hx⟩ := hsource.exists_feeds
  have hdoes : strategy.noted = false ∧ strategy.denied = [] := by
    rcases hstrategy with rfl | rfl <;> exact ⟨rfl, rfl⟩
  have hruns := h.runs_whole
    (p := { input := .ofSource source, language, strategy, recursionLimit, listeners })
    (Stream.reads_ofSource hx) rfl rfl hdoes.1 hdoes.2 rfl rfl
  refine ⟨fun q hq => ?_, fun exception q hq => ?_⟩
  · obtain ⟨-, node, vs, hwhole⟩ := Ends.of_ok hruns hq
    refine ⟨⟨_, hwhole.view, ?_⟩, hwhole.standing.lt_size, fun i t ht =>
      hwhole.standing.reads.index_get ht⟩
    rw [View.read_rule, hwhole.read, hwhole.standing.passed_eq]
  · cases (Ends.of_error hruns hq).1

namespace Retried

/-- Tries to match a token, then matches it and the one after it. -/
def recognizer : Recognizer Unit :=
  .asRule ⟨0⟩ fun _ => (Recognizer.trial fun _ => .expect ⟨1⟩ ∅).bind fun _ =>
    (Recognizer.expect ⟨1⟩ ∅).bind fun _ => .expect ⟨2⟩ ∅

/-- Both tokens, with one before them that does not belong there, and hidden ones in between. -/
def source : ListedTokens where
  rest := [{ ty := ⟨9⟩, text := " ", channel := hiddenChannel }, { ty := ⟨3⟩, text := "c" },
    { ty := ⟨1⟩, text := "a" }, { ty := ⟨9⟩, text := " ", channel := hiddenChannel },
    { ty := ⟨2⟩, text := "b" }]
  last := .endOfInput 5

/-- The recognizer is a rule made of ordinary operations. -/
theorem ordinaryRule_recognizer : recognizer.OrdinaryRule :=
  Recognizer.ordinaryRule_asRule ((Recognizer.ordinary_trial (Recognizer.ordinary_expect _ _)).bind
    fun _ => (Recognizer.ordinary_expect _ _).bind fun _ => Recognizer.ordinary_expect _ _)

/-- The trial fails, the first token is dropped, and the other two are matched. -/
theorem read_eq_passed_retried : ∃ q v,
    recognizer.run { input := .ofSource source, language := default } = .ok () q ∧
    q.tree.view? = some v ∧ View.read [v] = q.input.passed ∧
    q.input.passed.map Token.text = ["c", "a", "b"] := by
  have hend : ∃ u q, recognizer.run { input := .ofSource source, language := default } = .ok u q ∧
      q.input.passed.map Token.text = ["c", "a", "b"] := by decide +kernel
  have hsource : TokenSource.RunsOut source := ListedTokens.runsOut (by decide)
  obtain ⟨_, q, hrun, htexts⟩ := hend
  obtain ⟨⟨v, hview, hread⟩, -⟩ := (ordinaryRule_recognizer.read_eq_passed hsource (.inl rfl)
    default none 0 rfl).1 q hrun
  exact ⟨q, v, hrun, hview, hread, htexts⟩

end Retried

end TreeProjection
