import TreeProjection.Proofs.Reading
import TreeProjection.Proofs.Uniform

/-! # Runs side by side

A parse depends on its source only through the tokens that it takes from it.  If two sources give the same
tokens, then the same recognizer does the same over both, step by step.  If they give tokens that are the same on a
sketch, then a recognizer that goes by sketches does what is the same on a sketch.  The first source may drop out at
any time, and from then on nothing is asked of the other one; or it may fail where the other one does not, and then the
whole run over it fails in one of the ways that are given as lost.

* `Abreast` — two sources that give the same, until the first drops out or fails.
* `Parallel` — two actions that do the same over such sources.
* `Parser.Beside` — two parsers that are the same on a sketch, over such sources.
* `Abreast.uniform` — what does the same in each primitive action does the same altogether.
* `Recognizer.Ordinary.parallel` — an ordinary recognizer over both sources. -/

namespace TreeProjection

variable {σ σ' : Type} {α β ε : Type}

/-- **Two sources side by side.** Related sources give the same tokens, as far as a sketch shows, and stay related,
unless the first drops out, which cannot be undone, or fails in a way that is lost; and then it cannot fail in any other
way. -/
structure Abreast [TokenSource σ] [TokenSource σ'] (d : Detail) (out : σ → Prop) (lost : Error → Prop)
    (rel : σ → σ' → Prop) : Prop where
  /-- A source that has dropped out stays out. -/
  stays : ∀ s, out s → out (TokenSource.pull s).2
  /-- Related sources give the same token. -/
  pull : ∀ s t, rel s t → (out (TokenSource.pull s).2 ∨
    ∃ e, (TokenSource.pull s).1 = .error e ∧ lost e) ∨
      (sketchOutcome id (Token.sketch d) (TokenSource.pull s).1 =
        sketchOutcome id (Token.sketch d) (TokenSource.pull t).1 ∧
        rel (TokenSource.pull s).2 (TokenSource.pull t).2)
  /-- The runs of related sources are called off together, or calling off is lost. -/
  cancelled : ∀ s t, rel s t → TokenSource.isCancelled s = TokenSource.isCancelled t ∨
    (TokenSource.isCancelled s = true ∧ lost .cancelled)
  /-- Related sources are of the same length. -/
  bound : ∀ s t, rel s t → TokenSource.bound s = TokenSource.bound t
  /-- If anything is lost, then all failures of the source are. -/
  fails : ∀ e, lost e → ∀ (s : σ) e', (TokenSource.pull s).1 = .error e' → lost e'

/-- **Two actions side by side.** From related states they end alike, as far as sketches of their failures and answers
show, in related states, unless the first has dropped out by then, or fails in a way that is lost. -/
structure Parallel {τ τ' : Type} (out : τ → Prop) (lost : ε → Prop) (rel : τ → τ' → Prop) (failure : ε → ε)
    (view : α → α) (x : EStateM ε τ α) (y : EStateM ε τ' α) : Prop where
  /-- A state that is out stays out. -/
  stays : ∀ s, out s → Ends x s fun _ s' => out s'
  /-- Related states stay related. -/
  keeps : ∀ s t, rel s t → Ends x s fun o s' => (out s' ∨ ∃ e, o = .error e ∧ lost e) ∨
    Ends y t fun o' t' => sketchOutcome failure view o = sketchOutcome failure view o' ∧ rel s' t'

namespace Ends

variable {τ : Type} {y : EStateM ε τ α} {t : τ} {post : τ → Prop} {failure : ε → ε} {view : α → α}

/-- An action that ends like one that has answered answers alike. -/
theorem exists_of_like_ok {a : α}
    (h : Ends y t fun o' t' => sketchOutcome failure view (.ok a) = sketchOutcome failure view o' ∧ post t') :
    ∃ b t', view a = view b ∧ post t' ∧ y t = .ok b t' := by
  unfold Ends at h
  cases hy : y t with
  | ok b t' =>
      rw [hy] at h
      exact ⟨b, t', Except.ok.inj h.1, h.2, rfl⟩
  | error e t' =>
      rw [hy] at h
      exact nomatch h.1

/-- An action that ends like one that has failed fails alike. -/
theorem exists_of_like_error {e : ε}
    (h : Ends y t fun o' t' => sketchOutcome failure view (.error e) = sketchOutcome failure view o' ∧ post t') :
    ∃ e' t', failure e = failure e' ∧ post t' ∧ y t = .error e' t' := by
  unfold Ends at h
  cases hy : y t with
  | ok b t' =>
      rw [hy] at h
      exact nomatch h.1
  | error e' t' =>
      rw [hy] at h
      exact ⟨e', t', Except.error.inj h.1, h.2, rfl⟩

end Ends

namespace Parallel

variable {τ τ' : Type} {out : τ → Prop} {lost : ε → Prop} {rel : τ → τ' → Prop} {failure : ε → ε}
  {view : α → α} {view' : β → β} {x : EStateM ε τ α} {y : EStateM ε τ' α}

/-- Answering alike. -/
theorem pure {a b : α} (h : view a = view b) :
    Parallel out lost rel failure view (pure a : EStateM ε τ α) (Pure.pure b) where
  stays _ h := h
  keeps _ _ hst := .inr ⟨congrArg Except.ok h, hst⟩

/-- Failing alike. -/
theorem throw {e e' : ε} (h : failure e = failure e') :
    Parallel out lost rel failure view (throw e : EStateM ε τ α) (MonadExcept.throw e') where
  stays _ h := h
  keeps _ _ hst := .inr ⟨congrArg Except.error h, hst⟩

/-- More may be lost. -/
theorem mono {lost' : ε → Prop} (h : Parallel out lost rel failure view x y)
    (himp : ∀ e, lost e → lost' e) : Parallel out lost' rel failure view x y where
  stays := h.stays
  keeps s t hst := (h.keeps s t hst).mono fun _ _ ho =>
    ho.imp_left fun ho => ho.imp_right fun ⟨e, he, hlost⟩ => ⟨e, he, himp e hlost⟩

/-- **One pair of actions after the other**, where the second goes on from answers that are alike. -/
theorem bind_view {f : α → EStateM ε τ β} {g : α → EStateM ε τ' β}
    (h : Parallel out lost rel failure view x y)
    (hnext : ∀ a b, view a = view b → Parallel out lost rel failure view' (f a) (g b)) :
    Parallel out lost rel failure view' (x >>= f) (y >>= g) where
  stays s hs := Ends.bind (h.stays s hs) (fun a t ht => (hnext a a rfl).stays t ht) fun _ _ ht => ht
  keeps s t hst := by
    refine Ends.bind (h.keeps s t hst) (fun a s' hs' => ?_) fun e s' hs' => ?_
    · rcases hs' with (hout | ⟨e, he, -⟩) | hlike
      -- once out, the first stays out, and nothing is asked of the second any more
      · exact ((hnext a a rfl).stays s' hout).mono fun _ _ hu => .inl (.inl hu)
      · cases he
      · obtain ⟨b, t', hab, hrel, hy⟩ := hlike.exists_of_like_ok
        refine ((hnext a b hab).keeps s' t' hrel).mono fun o u hu => hu.imp_right fun hg => ?_
        rwa [Ends.bind_of_ok hy]
    · rcases hs' with (hout | ⟨e', he, hlost⟩) | hlike
      · exact .inl (.inl hout)
      · exact .inl (.inr ⟨e', congrArg _ (Except.error.inj he), hlost⟩)
      · obtain ⟨e', t', he, hrel, hy⟩ := hlike.exists_of_like_error
        rw [Ends.bind_of_error hy]
        exact .inr ⟨congrArg Except.error he, hrel⟩

/-- One pair of actions after the other, where the first pair answers the same. -/
theorem bind {f : α → EStateM ε τ β} {g : α → EStateM ε τ' β} (h : Parallel out lost rel failure id x y)
    (hnext : ∀ a, Parallel out lost rel failure view' (f a) (g a)) :
    Parallel out lost rel failure view' (x >>= f) (y >>= g) :=
  h.bind_view fun a b hab => by
    obtain rfl : a = b := hab
    exact hnext a

/-- The same choice on both sides. -/
theorem ite {x' : EStateM ε τ α} {y' : EStateM ε τ' α} {c c' : Prop} [Decidable c] [Decidable c']
    (hc : c ↔ c') (h : Parallel out lost rel failure view x y)
    (h' : Parallel out lost rel failure view x' y') :
    Parallel out lost rel failure view (if c then x else x') (if c' then y else y') := by
  by_cases hx : c
  · simpa only [hx, hc.mp hx, if_true] using h
  · simpa only [hx, mt hc.mpr hx, if_false] using h'

/-- **How two actions side by side end** where no state drops out: the first fails in a way that is lost, or both answer
alike, or both fail alike. -/
theorem together (h : Parallel (fun _ => False) lost rel failure view x y) {s : τ} {t : τ'} (hst : rel s t) :
    (∃ e s', x s = .error e s' ∧ lost e) ∨
    (∃ a b s' t', x s = .ok a s' ∧ y t = .ok b t' ∧ view a = view b ∧ rel s' t') ∨
    ∃ e e' s' t', x s = .error e s' ∧ y t = .error e' t' ∧ failure e = failure e' ∧ rel s' t' := by
  have hkeeps := h.keeps s t hst
  -- no state drops out, so the first side has ended in a loss or just as the second one
  cases hx : x s with
  | ok a s' =>
      rcases Ends.of_ok hkeeps hx with (hout | ⟨e, he, -⟩) | hlike
      · exact hout.elim
      · cases he
      · obtain ⟨b, t', hab, hrel, hy⟩ := hlike.exists_of_like_ok
        exact .inr (.inl ⟨a, b, s', t', rfl, hy, hab, hrel⟩)
  | error e s' =>
      rcases Ends.of_error hkeeps hx with (hout | ⟨e', he, hlost⟩) | hlike
      · exact hout.elim
      · obtain rfl := Except.error.inj he
        exact .inl ⟨e, s', rfl, hlost⟩
      · obtain ⟨e', t', he, hrel, hy⟩ := hlike.exists_of_like_error
        exact .inr (.inr ⟨e, e', s', t', rfl, hy, he, hrel⟩)

end Parallel

/-! ## Streams side by side -/

/-- Whether a run is given up for a reason that is lost. -/
def Abort.Lost (lost : Error → Prop) : Abort → Prop
  | .error e => lost e
  | _ => False

/-- Whether a recognizer stops early for a reason that is lost. -/
def Interrupt.Lost (lost : Error → Prop) : Interrupt → Prop
  | .abort a => a.Lost lost
  | _ => False

section

variable {d : Detail} {out : σ → Prop} {lost : Error → Prop} {rel : σ → σ' → Prop} {view : α → α}
  {view' : β → β}

/-- **Two streams side by side**: they are the same on a sketch, and their sources are related. -/
structure Stream.Beside (d : Detail) (rel : σ → σ' → Prop) (s : Stream σ) (t : Stream σ') : Prop where
  /-- The sources are related. -/
  source : rel s.source t.source
  /-- A sketch shows the same. -/
  sketch : s.sketch d = t.sketch d

/-- Two operations of streams that are alike but for their sources. -/
abbrev Stream.Parallel (d : Detail) (out : σ → Prop) (lost : Error → Prop) (rel : σ → σ' → Prop)
    (view : α → α) (x : StreamM σ α) (y : StreamM σ' α) : Prop :=
  TreeProjection.Parallel (fun s : Stream σ => out s.source) (Abort.Lost lost) (Beside d rel) id view x y

namespace Stream

variable [Nonempty σ']

/-- Looking at the stream on both sides. -/
theorem parallel_get {f : Stream σ → StreamM σ α} {g : Stream σ' → StreamM σ' α}
    (h : ∀ s t, s.sketch d = t.sketch d → Parallel d out lost rel view (f s) (g t)) :
    Parallel d out lost rel view (get >>= f) (get >>= g) where
  stays s hs := (h s (s.over Classical.ofNonempty) rfl).stays s hs
  keeps s t hst := (h s t hst.sketch).keeps s t hst

omit [Nonempty σ'] in
/-- The same change on both sides. -/
theorem parallel_modify {f : Stream σ → Stream σ} {g : Stream σ' → Stream σ'}
    (hf : ∀ s, (f s).source = s.source) (hg : ∀ t, (g t).source = t.source)
    (h : ∀ s t, s.sketch d = t.sketch d → (f s).sketch d = (g t).sketch d) :
    Parallel d out lost rel id (modify f : StreamM σ Unit) (modify g) where
  stays s hs := by
    rw [ends_modify, hf]
    exact hs
  keeps s t hst := by
    refine .inr ⟨rfl, ?_, h s t hst.sketch⟩
    rw [hf, hg]
    exact hst.source

variable [TokenSource σ] [TokenSource σ']

omit [Nonempty σ'] in
/-- Taking tokens on both sides. -/
theorem parallel_fetchFrom (h : Abreast d out lost rel) (i n : Nat) :
    Parallel d out lost rel id (fetchFrom i n) (fetchFrom i n) := by
  induction n with
  | zero =>
      refine ⟨fun s hs => hs, fun s t hst => .inr ⟨?_, hst⟩⟩
      rw [size_buffer_of_sketch hst.sketch]
  | succ n ih =>
      -- if the next pull drops out, then so does all that is fetched
      have hstays : ∀ s : Stream σ, out (TokenSource.pull s.source).2 →
          Ends (fetchFrom i (n + 1)) s fun _ s' => out s'.source := by
        intro s hs
        unfold Ends fetchFrom
        cases hpull : TokenSource.pull s.source with
        | mk answer source =>
            rw [hpull] at hs
            cases answer with
            | error e => exact hs
            | ok t =>
                by_cases hstop : (t.isEof || (decide (i ≤ s.buffer.size) && t.isVisible)) = true
                · simp only [hstop, if_true]
                  exact hs
                · simp only [hstop, if_false, Bool.false_eq_true]
                  exact ih.stays _ hs
      refine ⟨fun s hs => hstays s (h.stays _ hs), fun s t hst => ?_⟩
      rcases h.pull s.source t.source hst.source with (hout | ⟨e, hfails, hlost⟩) | ⟨hanswer, hrel⟩
      · exact (hstays s hout).mono fun _ _ hs => .inl (.inl hs)
      · unfold Ends fetchFrom
        cases hpull : TokenSource.pull s.source with
        | mk answer source =>
            rw [hpull] at hfails
            obtain rfl : answer = .error e := hfails
            exact .inl (.inr ⟨.error e, rfl, hlost⟩)
      · -- both sources have given the same, which goes into buffers of the same size
        unfold Ends fetchFrom
        cases hpull : TokenSource.pull s.source with
        | mk answer source =>
            cases hpull' : TokenSource.pull t.source with
            | mk answer' source' =>
                rw [hpull, hpull'] at hanswer hrel
                rcases answer with e | u <;> rcases answer' with e' | u'
                · obtain rfl : e = e' := Except.error.inj hanswer
                  exact .inr ⟨rfl, hrel, hst.sketch⟩
                · cases hanswer
                · cases hanswer
                · have hu : u.sketch d = u'.sketch d := Except.ok.inj hanswer
                  have hstops : (u.isEof || (decide (i ≤ s.buffer.size) && u.isVisible)) =
                      (u'.isEof || (decide (i ≤ t.buffer.size) && u'.isVisible)) := by
                    rw [size_buffer_of_sketch hst.sketch, Token.congr_sketch Token.isEof (fun _ => rfl) hu,
                      Token.congr_sketch Token.isVisible (fun _ => rfl) hu]
                  have hpushed : ({ s with source := source }.push u).Beside d rel
                      ({ t with source := source' }.push u') := by
                    refine ⟨hrel, ?_⟩
                    rw [sketch_push, sketch_push, hu]
                    exact congrArg (Stream.push · _) hst.sketch
                  by_cases hstop :
                      (u'.isEof || (decide (i ≤ t.buffer.size) && u'.isVisible)) = true
                  · simp only [hstops, hstop, if_true]
                    refine .inr ⟨?_, hpushed⟩
                    rw [size_buffer_of_sketch hst.sketch]
                  · simp only [hstops, hstop, if_false, Bool.false_eq_true]
                    exact ih.keeps _ _ hpushed

omit [Nonempty σ'] in
/-- Looking for where to read on, on both sides. -/
theorem parallel_nextStop (h : Abreast d out lost rel) (i : Nat) :
    Parallel d out lost rel id (nextStop i) (nextStop i) := by
  have hfetch := parallel_fetchFrom h i
  constructor
  · intro s hs
    unfold Ends nextStop
    cases s.findStop? i with
    | some j => exact hs
    | none =>
        by_cases hended : s.ended = true
        · simp only [hended, if_true]
          exact hs
        · simp only [hended, if_false, Bool.false_eq_true]
          exact (hfetch _).stays s hs
  · intro s t hst
    -- the choice looks at the buffer, and the fuel at the length of the source
    have hfind : s.findStop? i = t.findStop? i := by
      rw [← s.findStop?_sketch d, hst.sketch, t.findStop?_sketch d]
    have hbound : TokenSource.bound s.source = TokenSource.bound t.source := h.bound _ _ hst.source
    have hended : s.ended = t.ended := congrArg Stream.ended hst.sketch
    have hsize : s.buffer.size = t.buffer.size := size_buffer_of_sketch hst.sketch
    unfold Ends nextStop
    simp only [hfind, hbound, hended, hsize]
    cases t.findStop? i with
    | some j => exact .inr ⟨rfl, hst⟩
    | none =>
        by_cases hlast : t.ended = true
        · simp only [hlast, if_true]
          exact .inr ⟨trivial, hst⟩
        · simp only [hlast, if_false, Bool.false_eq_true]
          exact (hfetch _).keeps s t hst

omit [TokenSource σ] [TokenSource σ'] in
/-- Looking into the buffers on both sides. -/
theorem parallel_tokenAt (i : Nat) :
    Parallel d out lost rel (Token.sketch d) (tokenAt i) (tokenAt i) := by
  refine parallel_get fun s t hst => ?_
  have hget : s.buffer[i]?.map (·.sketch d) = t.buffer[i]?.map (·.sketch d) := by
    have hsketch : (s.sketch d).buffer[i]? = (t.sketch d).buffer[i]? := by rw [hst]
    simpa [sketch] using hsketch
  -- the place is taken on both sides or on neither
  cases hs : s.buffer[i]? with
  | none =>
      cases ht : t.buffer[i]? with
      | none => exact .throw rfl
      | some u => simp [hs, ht] at hget
  | some u =>
      cases ht : t.buffer[i]? with
      | none => simp [hs, ht] at hget
      | some u' =>
          rw [hs, ht] at hget
          exact .pure (Option.some.inj hget)

omit [Nonempty σ'] [TokenSource σ'] in
/-- Starting a stream, as a change of the stream. -/
theorem start_eq : (start : StreamM σ Unit) = get >>= fun s =>
    if s.started then pure () else (do
      modify fun s => { s with started := true }
      let cursor ← nextStop 0
      modify fun s => { s with cursor }) := by
  funext s
  cases hs : s.started with
  | true =>
      change (if s.started = true then _ else _ : StreamM σ Unit) s =
        (if s.started = true then _ else _ : StreamM σ Unit) s
      simp only [hs, if_true]
  | false =>
      change (if s.started = true then _ else _ : StreamM σ Unit) s =
        (if s.started = true then _ else _ : StreamM σ Unit) s
      simp only [hs, Bool.false_eq_true, if_false]
      rfl

omit [Nonempty σ'] [TokenSource σ'] in
/-- Once a stream has been started, looking at the current token takes none. -/
theorem ahead_one_of_started {s : Stream σ} (h : s.started = true) : ahead 1 s =
    s.buffer[s.cursor]?.elim (.error (.broken .outsideBuffer) s) fun t => .ok t s := by
  have hget : (get : StreamM σ (Stream σ)) s = .ok s s := rfl
  have htoken : tokenAt s.cursor s =
      s.buffer[s.cursor]?.elim (.error (.broken .outsideBuffer) s) fun t => .ok t s := by
    simp only [tokenAt, bind, EStateM.bind, hget]
    cases s.buffer[s.cursor]? <;> rfl
  change (start >>= fun _ => get >>= fun s => skipFrom 0 s.cursor >>= tokenAt) s = _
  simp only [bind, EStateM.bind, start_of_started h]
  exact htoken

omit [Nonempty σ'] in
/-- Putting the cursor where reading goes on, on both sides. -/
theorem parallel_moveTo (h : Abreast d out lost rel) (i : Nat) :
    Parallel d out lost rel id (do let cursor ← nextStop i; modify fun s => { s with cursor })
      (do let cursor ← nextStop i; modify fun s => { s with cursor }) := by
  refine (parallel_nextStop h i).bind fun cursor => parallel_modify (fun _ => rfl) (fun _ => rfl) fun s t hst => ?_
  exact congrArg (fun s : Stream Unit => { s with cursor }) hst

/-- Starting on both sides. -/
theorem parallel_start (h : Abreast d out lost rel) : Parallel d out lost rel id start start := by
  rw [start_eq, start_eq]
  refine parallel_get fun s t hst => .ite ?_ (.pure rfl) ?_
  · rw [show s.started = t.started from congrArg Stream.started hst]
  · refine .bind (parallel_modify (fun _ => rfl) (fun _ => rfl) fun s t hst => ?_) fun _ => parallel_moveTo h 0
    exact congrArg (fun s : Stream Unit => { s with started := true }) hst

/-- Going on on both sides. -/
theorem parallel_skipFrom (h : Abreast d out lost rel) (n i : Nat) :
    Parallel d out lost rel id (skipFrom n i) (skipFrom n i) := by
  induction n generalizing i with
  | zero => exact .pure rfl
  | succ n ih =>
      refine (parallel_tokenAt i).bind_view fun t u htu => .ite ?_ (.pure rfl) ?_
      · rw [Token.congr_sketch Token.isEof (fun _ => rfl) htu]
      · exact (parallel_nextStop h (i + 1)).bind fun j => ih j

/-- Looking ahead on both sides. -/
theorem parallel_ahead (h : Abreast d out lost rel) (k : Nat) :
    Parallel d out lost rel (Token.sketch d) (ahead k) (ahead k) := by
  refine (parallel_start h).bind fun _ => parallel_get fun s t hst => ?_
  rw [show s.cursor = t.cursor from congrArg Stream.cursor hst]
  exact (parallel_skipFrom h (k - 1) t.cursor).bind fun i => parallel_tokenAt i

/-- Moving past the current token on both sides. -/
theorem parallel_consume (h : Abreast d out lost rel) :
    Parallel d out lost rel id consume consume := by
  refine (parallel_start h).bind fun _ => parallel_get fun s t hst => ?_
  rw [show s.cursor = t.cursor from congrArg Stream.cursor hst]
  refine (parallel_tokenAt t.cursor).bind_view fun u v huv => .ite ?_ (.pure rfl) (parallel_moveTo h _)
  rw [Token.congr_sketch Token.isEof (fun _ => rfl) huv]

/-- Moving to a place on both sides. -/
theorem parallel_seek (h : Abreast d out lost rel) (i : Nat) :
    Parallel d out lost rel id (seek i) (seek i) :=
  (parallel_start h).bind fun _ => parallel_moveTo h i

end Stream

/-! ## Parsers side by side -/

variable {limits : Option Nat → Option Nat → Prop}

/-- **Two parsers side by side**: they are the same on a sketch, and their sources and their limits of active rules are
related. -/
structure Parser.Beside (d : Detail) (limits : Option Nat → Option Nat → Prop) (rel : σ → σ' → Prop)
    (p : Parser σ) (q : Parser σ') : Prop where
  /-- The sources are related. -/
  source : rel p.input.source q.input.source
  /-- The limits are related. -/
  limits : limits p.recursionLimit q.recursionLimit
  /-- A sketch shows the same. -/
  sketch : p.sketch d = q.sketch d

/-- Parsers side by side in full, with one limit, differ in their sources alone. -/
theorem Parser.beside_full_iff {p : Parser σ} {q : Parser σ'} :
    p.Beside .full Eq rel q ↔ ∃ u, rel p.input.source u ∧ q = p.over u := by
  constructor
  · intro h
    exact ⟨_, h.source, eq_over_of_sketch h.sketch h.limits⟩
  · rintro ⟨u, hu, rfl⟩
    exact ⟨hu, rfl, rfl⟩

/-- Two actions of parsers that are alike but for what is not shown. -/
abbrev Parser.Parallel (d : Detail) (limits : Option Nat → Option Nat → Prop) (out : σ → Prop)
    (lost : Error → Prop) (rel : σ → σ' → Prop) (view : α → α) (x : ParserM σ α) (y : ParserM σ' α) : Prop :=
  TreeProjection.Parallel (fun p : Parser σ => out p.input.source) (Interrupt.Lost lost)
    (Beside d limits rel) (Interrupt.sketch d) view x y

namespace Parser

/-- Looking at the parser on both sides. -/
theorem parallel_get [Nonempty σ'] {f : Parser σ → ParserM σ α} {g : Parser σ' → ParserM σ' α}
    (h : ∀ p q, p.sketch d = q.sketch d → Parallel d limits out lost rel view (f p) (g q)) :
    Parallel d limits out lost rel view (get >>= f) (get >>= g) where
  stays p hp := (h p (p.over Classical.ofNonempty) rfl).stays p hp
  keeps p q hpq := (h p q hpq.sketch).keeps p q hpq

/-- Looking at the parser on both sides, where the limits are the same. -/
theorem parallel_get_limit [Nonempty σ'] {f : Parser σ → ParserM σ α} {g : Parser σ' → ParserM σ' α}
    (hlimits : ∀ m n, limits m n → m = n) (h : ∀ p q, p.sketch d = q.sketch d →
      p.recursionLimit = q.recursionLimit → Parallel d limits out lost rel view (f p) (g q)) :
    Parallel d limits out lost rel view (get >>= f) (get >>= g) where
  stays p hp := (h p (p.over Classical.ofNonempty) rfl rfl).stays p hp
  keeps p q hpq := (h p q hpq.sketch (hlimits _ _ hpq.limits)).keeps p q hpq

/-- The same change on both sides. -/
theorem parallel_modify {f : Parser σ → Parser σ} {g : Parser σ' → Parser σ'}
    (hf : ∀ p, (f p).input.source = p.input.source ∧ (f p).recursionLimit = p.recursionLimit)
    (hg : ∀ q, (g q).input.source = q.input.source ∧ (g q).recursionLimit = q.recursionLimit)
    (h : ∀ p q, p.sketch d = q.sketch d → (f p).sketch d = (g q).sketch d) :
    Parallel d limits out lost rel id (modify f : ParserM σ Unit) (modify g) where
  stays p hp := by
    rw [ends_modify, (hf p).1]
    exact hp
  keeps p q hpq := by
    refine .inr ⟨rfl, ?_, ?_, h p q hpq.sketch⟩
    · rw [(hf p).1, (hg q).1]
      exact hpq.source
    · rw [(hf p).2, (hg q).2]
      exact hpq.limits

/-- Releasing ends that are alike. -/
theorem parallel_release {o o' : Except Interrupt α}
    (h : sketchOutcome (·.sketch d) view o = sketchOutcome (·.sketch d) view o') :
    Parallel d limits out lost rel view (release o) (release o') := by
  cases o with
  | ok a =>
      cases o' with
      | ok b => exact .pure (Except.ok.inj h)
      | error j => cases h
  | error i =>
      cases o' with
      | ok b => cases h
      | error j => exact .throw (Except.error.inj h)

/-- Operations of the inputs on both sides. -/
theorem parallel_onInput {x : StreamM σ α} {y : StreamM σ' α}
    (h : Stream.Parallel d out lost rel view x y) :
    Parallel d limits out lost rel view (onInput x) (onInput y) where
  stays p hp := ends_onInput (h.stays p.input hp)
  keeps p q hpq := by
    have hinput : p.input.sketch d = q.input.sketch d := congrArg Parser.input hpq.sketch
    -- a parser is left beside the other one if its input is
    have hbeside : ∀ {s : Stream σ} {t : Stream σ'}, s.Beside d rel t →
        ({ p with input := s } : Parser σ).Beside d limits rel { q with input := t } := by
      intro s t hst
      refine ⟨hst.source, hpq.limits, ?_⟩
      change { p.sketch d with input := s.sketch d } = { q.sketch d with input := t.sketch d }
      rw [hpq.sketch, hst.sketch]
    refine ends_onInput ((h.keeps p.input q.input ⟨hpq.source, hinput⟩).mono fun o s hs => ?_)
    rcases hs with (hout | ⟨a, rfl, hlost⟩) | hy
    · exact .inl (.inl hout)
    · exact .inl (.inr ⟨.abort a, rfl, hlost⟩)
    · refine .inr (ends_onInput (hy.mono ?_))
      rintro o' t ⟨ho, hst⟩
      refine ⟨?_, hbeside hst⟩
      cases o with
      | ok a =>
          cases o' with
          | ok b => exact congrArg Except.ok (Except.ok.inj ho)
          | error j => cases ho
      | error i =>
          cases o' with
          | ok b => cases ho
          | error j => exact congrArg (fun a => Except.error (Interrupt.abort a)) (Except.error.inj ho)

/-- **Going on from how actions on both sides have ended**, if what comes next is lost once they are. -/
theorem parallel_observe {x : ParserM σ α} {y : ParserM σ' α}
    {f : Except Interrupt α → ParserM σ β} {g : Except Interrupt α → ParserM σ' β}
    (h : Parallel d limits out lost rel view x y)
    (hnext : ∀ o o', sketchOutcome (·.sketch d) view o = sketchOutcome (·.sketch d) view o' →
      Parallel d limits out lost rel view' (f o) (g o'))
    (hlost : ∀ e p, lost e → Ends (f (.error (.abort (.error e)))) p fun o _ =>
      ∃ i : Interrupt, o = .error i ∧ i.Lost lost) :
    Parallel d limits out lost rel view' (observe x >>= f) (observe y >>= g) where
  stays p hp := ends_observe_bind (h.stays p hp) fun o p' hout => (hnext o o rfl).stays p' hout
  keeps p q hpq := by
    refine ends_observe_bind (h.keeps p q hpq) ?_
    rintro o p' ((hout | ⟨i, rfl, hi⟩) | hy)
    · exact ((hnext o o rfl).stays p' hout).mono fun _ _ h => .inl (.inl h)
    · match i, hi with
      | .abort (.error e), hi => exact (hlost e p' hi).mono fun _ _ h => .inl (.inr h)
    · -- both have ended alike, and what is observed is how
      have hobserved : ∃ o' q', sketchOutcome (·.sketch d) view o = sketchOutcome (·.sketch d) view o' ∧
          p'.Beside d limits rel q' ∧ observe y q = .ok o' q' := by
        cases o with
        | ok a =>
            obtain ⟨b, q', hab, hrel, hy⟩ := hy.exists_of_like_ok
            refine ⟨.ok b, q', congrArg Except.ok hab, hrel, ?_⟩
            unfold observe
            rw [hy]
        | error i =>
            obtain ⟨j, q', hij, hrel, hy⟩ := hy.exists_of_like_error
            refine ⟨.error j, q', congrArg Except.error hij, hrel, ?_⟩
            unfold observe
            rw [hy]
      obtain ⟨o', q', ho, hrel, hobserved⟩ := hobserved
      refine ((hnext o o' ho).keeps p' q' hrel).mono fun _ _ h => h.imp_right fun hg => ?_
      rwa [Ends.bind_of_ok hobserved]

/-! ## What touches the input -/

section

variable [Nonempty σ'] [TokenSource σ] [TokenSource σ'] (h : Abreast d out lost rel)

include h

omit [Nonempty σ'] in
/-- Whether the run has been called off, on both sides. -/
theorem parallel_checkCancelled :
    Parallel d limits out lost rel id checkCancelled checkCancelled := by
  constructor
  · intro p hp
    unfold checkCancelled
    rw [ends_get_bind]
    split <;> exact hp
  · intro p q hpq
    unfold checkCancelled
    rw [ends_get_bind]
    -- calling off either comes to both sides at once, or makes the first one a loss
    rcases h.cancelled _ _ hpq.source with hsame | ⟨hcancelled, hlost⟩
    · simp only [ends_get_bind, hsame]
      split
      · exact .inr ⟨rfl, hpq⟩
      · exact .inr ⟨rfl, hpq⟩
    · rw [if_pos hcancelled]
      exact .inl (.inr ⟨_, rfl, hlost⟩)

/-- Consuming on both sides until a token of a set comes. -/
theorem parallel_consumeUntil
    (hconsume : Parallel d limits out lost rel (Token.sketch d) consume consume) (set : TokenSet)
    (n : Nat) : Parallel d limits out lost rel id (consumeUntil set n) (consumeUntil set n) := by
  induction n with
  | zero => exact .throw rfl
  | succ n ih =>
      refine (parallel_onInput (Stream.parallel_ahead h 1)).bind_view fun t u htu =>
        .ite ?_ (.pure rfl) (hconsume.bind_view fun _ _ _ => ih)
      rw [Token.congr_sketch Token.isEof (fun _ => rfl) htu,
        Token.congr_sketch Token.ty (fun _ => rfl) htu]

/-- Passing over tokens on both sides. -/
theorem parallel_passOver
    (hconsume : Parallel d limits out lost rel (Token.sketch d) consume consume) (set : TokenSet) :
    Parallel d limits out lost rel id (get >>= fun p => consumeUntil set (p.remaining + 1))
      (get >>= fun p => consumeUntil set (p.remaining + 1)) := by
  constructor
  · exact fun p hp => (parallel_consumeUntil h hconsume set _).stays p hp
  · intro p q hpq
    -- the number of steps depends on the sources, which are of the same length
    have hremaining : p.remaining = q.remaining := by
      have hbound : TokenSource.bound p.input.source = TokenSource.bound q.input.source :=
        h.bound _ _ hpq.source
      have hsize : p.input.buffer.size = q.input.buffer.size :=
        Stream.size_buffer_of_sketch (congrArg Parser.input hpq.sketch)
      have hcursor : p.input.cursor = q.input.cursor := congrArg (fun p => p.input.cursor) hpq.sketch
      unfold remaining
      rw [hbound, hsize, hcursor]
    rw [ends_get_bind]
    simp only [ends_get_bind, hremaining]
    exact (parallel_consumeUntil h hconsume set _).keeps p q hpq

/-- Enter a rule that may be entered. -/
def beginRule (r : RuleIndex) : ParserM σ Unit := do
  if (← get).isSpeculating then
    modify fun p => { p with frames := ⟨r, none⟩ :: p.frames }
  else
    let start ← ahead 1
    modify fun p => p.openRule r start.index

omit h [Nonempty σ'] [TokenSource σ'] in
/-- Entering a rule is seeing whether it may be entered, and then entering it. -/
theorem enterRule_eq (r : RuleIndex) : (enterRule r : ParserM σ Unit) = checkCancelled >>= fun _ =>
    get >>= fun p => if p.recursionLimit.any (· ≤ p.frames.length) then
      giveUp (.error .recursionLimitExceeded) else beginRule r := by
  funext p
  simp only [enterRule, beginRule, bind, EStateM.bind]
  cases checkCancelled p with
  | error e q => rfl
  | ok u q =>
      change (if q.recursionLimit.any (· ≤ q.frames.length) then _ else _ : ParserM σ Unit) q =
        (if q.recursionLimit.any (· ≤ q.frames.length) then _ else _ : ParserM σ Unit) q
      cases q.recursionLimit.any (· ≤ q.frames.length) <;> rfl

/-- Entering a rule that may be entered, on both sides. -/
theorem parallel_beginRule (r : RuleIndex) :
    Parallel d limits out lost rel id (beginRule r) (beginRule r) := by
  refine parallel_get fun p q hpq => .ite ?_ ?_ ?_
  · rw [Parser.congr_sketch Parser.isSpeculating (fun _ => rfl) hpq]
  · refine parallel_modify (fun _ => ⟨rfl, rfl⟩) (fun _ => ⟨rfl, rfl⟩) fun p q hpq => ?_
    exact congrArg (fun p : Parser Unit => { p with frames := ⟨r, none⟩ :: p.frames }) hpq
  · refine (parallel_onInput (Stream.parallel_ahead h 1)).bind_view fun t u htu => ?_
    refine parallel_modify (fun _ => ⟨rfl, rfl⟩) (fun _ => ⟨rfl, rfl⟩) fun p q hpq => ?_
    rw [sketch_openRule, sketch_openRule, hpq, Token.congr_sketch Token.index (fun _ => rfl) htu]

/-- Entering a rule on both sides, where the limits are the same. -/
theorem parallel_enterRule (hlimits : ∀ m n, limits m n → m = n) (r : RuleIndex) :
    Parallel d limits out lost rel id (enterRule r) (enterRule r) := by
  rw [enterRule_eq, enterRule_eq]
  refine (parallel_checkCancelled h).bind fun _ => parallel_get_limit hlimits fun p q hpq hlimit => ?_
  refine .ite ?_ (.throw rfl) (parallel_beginRule h r)
  rw [hlimit, show p.frames = q.frames from congrArg Parser.frames hpq]

/-- Taking the innermost rule off the active ones. -/
def popRule : ParserM σ Unit := do
  match (← get).frames with
  | [] => giveUp (.broken .exitWithoutEnter)
  | frame :: frames =>
    modify fun p => { p with frames }
    if let some node := frame.node then
      modify fun p =>
        let stop := p.behind? 1 >>= Token.index
        { p with tree := p.tree.modifyRule node fun r =>
          { r with stop := stop.filter fun s => r.start.any (· ≤ s) } }

omit h [Nonempty σ'] [TokenSource σ'] in
/-- Leaving a rule is taking it off and then looking whether the run has been called off. -/
theorem exitRule_eq : (exitRule : ParserM σ Unit) = popRule >>= fun _ => checkCancelled := by
  funext p
  unfold exitRule popRule
  change (match p.frames with | [] => _ | _ :: _ => _ : ParserM σ Unit) p = _
  rw [bind_assoc]
  change _ = ((match p.frames with | [] => _ | _ :: _ => _ : ParserM σ Unit) >>= _) p
  cases p.frames with
  | nil => rfl
  | cons frame frames =>
      cases hnode : frame.node with
      | none => simp only [hnode]; rfl
      | some node => simp only [hnode]; rfl

omit h [TokenSource σ] [TokenSource σ'] in
/-- Taking a rule off on both sides. -/
theorem parallel_popRule : Parallel d limits out lost rel id popRule popRule := by
  refine parallel_get fun p q hpq => ?_
  rw [show p.frames = q.frames from congrArg Parser.frames hpq]
  cases q.frames with
  | nil => exact .throw rfl
  | cons frame frames =>
      refine .bind (parallel_modify (fun _ => ⟨rfl, rfl⟩) (fun _ => ⟨rfl, rfl⟩) fun p q hpq => ?_) fun _ => ?_
      · exact congrArg (fun p : Parser Unit => { p with frames }) hpq
      cases frame.node with
      | none => exact .pure rfl
      | some node =>
          refine parallel_modify (fun _ => ⟨rfl, rfl⟩) (fun _ => ⟨rfl, rfl⟩) fun p q hpq => ?_
          change (p.closeRule node).sketch d = (q.closeRule node).sketch d
          rw [sketch_closeRule, sketch_closeRule, hpq]

/-- Leaving a rule on both sides. -/
theorem parallel_exitRule : Parallel d limits out lost rel id exitRule exitRule := by
  rw [exitRule_eq, exitRule_eq]
  exact (parallel_popRule).bind fun _ => parallel_checkCancelled h

omit h [Nonempty σ'] [TokenSource σ'] in
/-- **Leaving a rule that has failed.** Whether the run has been called off makes no difference any more. -/
theorem leave_error_eq (i : Interrupt) :
    (do
      let exited ← observe exitRule
      release (.error i)
      release exited : ParserM σ Unit) = observe popRule >>= fun _ => throw i := by
  -- looking whether the run has been called off leaves the state as it is
  have hcheck : ∀ q : Parser σ, checkCancelled q = .ok () q ∨ ∃ e, checkCancelled q = .error e q := by
    intro q
    change (if TokenSource.isCancelled q.input.source then giveUp (.error .cancelled)
      else pure () : ParserM σ Unit) q = _ ∨ ∃ e, (if TokenSource.isCancelled q.input.source then
        giveUp (.error .cancelled) else pure () : ParserM σ Unit) q = _
    by_cases hq : TokenSource.isCancelled q.input.source = true
    · rw [if_pos hq]
      exact .inr ⟨_, rfl⟩
    · rw [if_neg hq]
      exact .inl rfl
  rw [exitRule_eq]
  funext p
  simp only [bind, EStateM.bind, observe, release]
  cases popRule p with
  | error e q => rfl
  | ok u q =>
      rcases hcheck q with h | ⟨e, h⟩
      · simp only [h]
        rfl
      · simp only [h]
        rfl

/-- Leaving a rule on both sides, with what its body ended with. -/
theorem parallel_leave {o o' : Except Interrupt Unit}
    (ho : sketchOutcome (·.sketch d) id o = sketchOutcome (·.sketch d) id o') :
    Parallel d limits out lost rel id (do let exited ← observe exitRule; release o; release exited)
      (do let exited ← observe exitRule; release o'; release exited) := by
  cases o with
  | ok u =>
      cases o' with
      | error j => cases ho
      | ok u' =>
          refine parallel_observe (parallel_exitRule h) (fun o o' ho => ?_) fun e p he => ?_
          · exact (Parallel.pure rfl).bind fun _ => parallel_release ho
          · exact ⟨_, rfl, he⟩
  | error i =>
      cases o' with
      | ok u' => cases ho
      | error j =>
          -- the flag makes no difference any more, so that nothing is lost by looking at it
          rw [leave_error_eq, leave_error_eq]
          have hnone : Parallel d limits out (fun _ => False) rel id (observe popRule >>= fun _ => throw i)
              (observe popRule >>= fun _ => throw j : ParserM σ' Unit) :=
            parallel_observe parallel_popRule (fun _ _ _ => .throw (Except.error.inj ho))
              fun _ _ he => he.elim
          exact hnone.mono fun j hj => by
            match j, hj with
            | .abort (.error _), hj => exact hj.elim

/-- What becomes of a rule once its body has ended. -/
def settleRule (outcome : Except Interrupt Unit) : ParserM σ Unit := do
  let outcome ← match outcome with
    | .error (.recognition e) =>
      if (← get).isSpeculating then pure outcome else observe (handleRecognition e)
    | _ => pure outcome
  let exited ← observe exitRule
  release outcome
  release exited

omit h [Nonempty σ'] [TokenSource σ'] in
/-- A rule that has been given up is given up once it has been left. -/
theorem settleRule_abort (a : Abort) :
    (settleRule (.error (.abort a)) : ParserM σ Unit) = observe popRule >>= fun _ => throw (.abort a) :=
  leave_error_eq _

/-- What becomes of a rule on both sides. -/
theorem parallel_settleRule {o o' : Except Interrupt Unit}
    (hfailure : ∀ e e' : RecognitionException, e.sketch d = e'.sketch d →
      Parallel d limits out lost rel id (handleRecognition e) (handleRecognition e'))
    (ho : sketchOutcome (·.sketch d) id o = sketchOutcome (·.sketch d) id o') :
    Parallel d limits out lost rel id (settleRule o) (settleRule o') := by
  match o, o' with
  | .ok u, .ok u' => exact parallel_leave h ho
  | .error (.abort a), .error (.abort a') => exact parallel_leave h ho
  | .error (.recognition e), .error (.recognition e') =>
      -- only a failure outside trials is handled
      refine parallel_get fun p q hpq => .ite ?_ (parallel_leave h ho) ?_
      · rw [Parser.congr_sketch Parser.isSpeculating (fun _ => rfl) hpq]
      · refine parallel_observe (hfailure e e' ?_) (fun _ _ => parallel_leave h) fun e p he => ?_
        · exact Interrupt.recognition.inj (Except.error.inj ho)
        · change Ends (settleRule (.error (.abort (.error e)))) p _
          rw [settleRule_abort]
          exact ends_observe_bind (Ends.self popRule p) fun _ _ _ => ⟨_, rfl, he⟩
  | .ok u, .error i => exact nomatch ho
  | .error i, .ok u => exact nomatch ho
  | .error (.abort a), .error (.recognition e) => exact nomatch Except.error.inj ho
  | .error (.recognition e), .error (.abort a) => exact nomatch Except.error.inj ho

/-- A rule on both sides. -/
theorem parallel_rule (hlimits : ∀ m n, limits m n → m = n) (r : RuleIndex) {x : ParserM σ Unit}
    {y : ParserM σ' Unit} (hfailure : ∀ e e' : RecognitionException, e.sketch d = e'.sketch d →
      Parallel d limits out lost rel id (handleRecognition e) (handleRecognition e'))
    (hbody : Parallel d limits out lost rel id x y) :
    Parallel d limits out lost rel id (rule r x) (rule r y) := by
  refine (parallel_enterRule h hlimits r).bind fun _ => ?_
  refine parallel_observe hbody (fun _ _ => parallel_settleRule h hfailure) fun e p he => ?_
  -- a rule that has failed for a lost reason still fails for it once it is left
  change Ends (settleRule (.error (.abort (.error e)))) p _
  rw [settleRule_abort]
  exact ends_observe_bind (Ends.self popRule p) fun _ _ _ => ⟨_, rfl, he⟩

/-- What becomes of an invocation once its body has ended. -/
def endInvocation (outcome : Except Interrupt α) : ParserM σ α := do
  modify fun p => { p with follow := p.follow.tail }
  release outcome

omit [Nonempty σ'] h [TokenSource σ] [TokenSource σ'] in
/-- What becomes of an invocation on both sides. -/
theorem parallel_endInvocation {o o' : Except Interrupt α}
    (ho : sketchOutcome (·.sketch d) view o = sketchOutcome (·.sketch d) view o') :
    Parallel d limits out lost rel view (endInvocation o) (endInvocation o') := by
  refine .bind (parallel_modify (fun _ => ⟨rfl, rfl⟩) (fun _ => ⟨rfl, rfl⟩) fun p q hpq => ?_) fun _ =>
    parallel_release ho
  exact congrArg (fun p : Parser Unit => { p with follow := p.follow.tail }) hpq

omit [Nonempty σ'] h [TokenSource σ] [TokenSource σ'] in
/-- Invoking a body on both sides. -/
theorem parallel_invoke (follow : TokenSet) {x : ParserM σ α} {y : ParserM σ' α}
    (hbody : Parallel d limits out lost rel view x y) :
    Parallel d limits out lost rel view (invoke follow x) (invoke follow y) := by
  refine .bind (parallel_modify (fun _ => ⟨rfl, rfl⟩) (fun _ => ⟨rfl, rfl⟩) fun p q hpq => ?_) fun _ => ?_
  · exact congrArg (fun p : Parser Unit => { p with follow := follow :: p.follow }) hpq
  exact parallel_observe hbody (fun _ _ => parallel_endInvocation) fun _ _ he => ⟨_, rfl, he⟩

/-- What becomes of a trial once its body has ended, where a number of rules and of invocations were active and the
input stood at a place when it began. -/
def endTrial (start rules invocations : Nat) (outcome : Except Interrupt Unit) : ParserM σ Bool := do
  modify fun p => { p with
    speculating := p.speculating - 1
    frames := lastOf rules p.frames
    follow := lastOf invocations p.follow }
  onInput (Stream.seek start)
  match outcome with
  | .ok () => return true
  | .error (.recognition _) => return false
  | .error (.abort a) => giveUp a

/-- What becomes of a trial on both sides. -/
theorem parallel_endTrial (start rules invocations : Nat) {o o' : Except Interrupt Unit}
    (ho : sketchOutcome (·.sketch d) id o = sketchOutcome (·.sketch d) id o') :
    Parallel d limits out lost rel id (endTrial start rules invocations o)
      (endTrial start rules invocations o') := by
  refine .bind (parallel_modify (fun _ => ⟨rfl, rfl⟩) (fun _ => ⟨rfl, rfl⟩) fun p q hpq => ?_) fun _ => ?_
  · exact congrArg (fun p : Parser Unit => { p with
      speculating := p.speculating - 1
      frames := lastOf rules p.frames
      follow := lastOf invocations p.follow }) hpq
  refine (parallel_onInput (Stream.parallel_seek h start)).bind fun _ => ?_
  -- outcomes that look alike are of one kind; the remaining combinations contradict `ho`
  match o, o' with
  | .ok _, .ok _ => exact .pure rfl
  | .error (.recognition _), .error (.recognition _) => exact .pure rfl
  | .error (.abort a), .error (.abort a') => exact .throw (Except.error.inj ho)
  | .ok u, .error i => exact nomatch ho
  | .error i, .ok u => exact nomatch ho
  | .error (.abort a), .error (.recognition e) => exact nomatch Except.error.inj ho
  | .error (.recognition e), .error (.abort a) => exact nomatch Except.error.inj ho

/-- Trying a body on both sides. -/
theorem parallel_speculate {x : ParserM σ Unit} {y : ParserM σ' Unit}
    (hbody : Parallel d limits out lost rel id x y) :
    Parallel d limits out lost rel id (speculate x) (speculate y) := by
  refine (parallel_onInput (Stream.parallel_ahead h 1)).bind_view fun _ _ _ => parallel_get fun p q hpq => ?_
  have hindex : p.index = q.index := congrArg Parser.index hpq
  have hframes : p.frames = q.frames := congrArg Parser.frames hpq
  have hfollow : p.follow = q.follow := congrArg Parser.follow hpq
  rw [hindex, hframes, hfollow]
  refine .bind (parallel_modify (fun _ => ⟨rfl, rfl⟩) (fun _ => ⟨rfl, rfl⟩) fun p q hpq => ?_) fun _ => ?_
  · exact congrArg (fun p : Parser Unit => { p with speculating := p.speculating + 1 }) hpq
  refine parallel_observe hbody (fun _ _ => parallel_endTrial h _ _ _) fun e p he => ?_
  -- taking the input back can only fail as the source does, which is lost as well
  rw [ends_modify_bind]
  have hsought : ∀ p : Parser σ, Ends (onInput (Stream.seek q.index)) p fun o _ =>
      ∀ i : Interrupt, o = .error i → i.Lost lost := by
    refine fun p => ends_onInput ((Stream.stalls_seek q.index p.input).mono ?_)
    rintro (a | _) t ⟨-, hstalls⟩ i ⟨⟩
    obtain ⟨source, e', -, hfails, rfl⟩ := hstalls a rfl
    exact h.fails e he source e' hfails
  exact Ends.bind (hsought _) (fun _ _ _ => ⟨_, rfl, he⟩) fun i _ hi => ⟨i, rfl, hi i rfl⟩

/-- What becomes of a body that was run for its exception. -/
def endAttempt : Except Interrupt α → ParserM σ (Except RecognitionException α)
  | .ok a => return .ok a
  | .error (.recognition e) => return .error e
  | .error (.abort a) => giveUp a

omit [Nonempty σ'] h [TokenSource σ] [TokenSource σ'] in
/-- What becomes of a body that was run for its exception, on both sides. -/
theorem parallel_endAttempt {o o' : Except Interrupt α}
    (ho : sketchOutcome (·.sketch d) id o = sketchOutcome (·.sketch d) id o') :
    Parallel d limits out lost rel (sketchOutcome (·.sketch d) id) (endAttempt o) (endAttempt o') := by
  match o, o' with
  | .ok a, .ok b => exact .pure (congrArg Except.ok (Except.ok.inj ho))
  | .error (.recognition e), .error (.recognition e') =>
      exact .pure (congrArg Except.error (Interrupt.recognition.inj (Except.error.inj ho)))
  | .error (.abort a), .error (.abort a') => exact .throw (Except.error.inj ho)
  | .ok u, .error i => exact nomatch ho
  | .error i, .ok u => exact nomatch ho
  | .error (.abort a), .error (.recognition e) => exact nomatch Except.error.inj ho
  | .error (.recognition e), .error (.abort a) => exact nomatch Except.error.inj ho

omit [Nonempty σ'] h [TokenSource σ] [TokenSource σ'] in
/-- Running a body for its exception on both sides. -/
theorem parallel_attempt {x : ParserM σ α} {y : ParserM σ' α}
    (hbody : Parallel d limits out lost rel id x y) :
    Parallel d limits out lost rel (sketchOutcome (·.sketch d) id) (attempt x) (attempt y) :=
  parallel_observe hbody (fun _ _ => parallel_endAttempt) fun _ _ he => ⟨_, rfl, he⟩

end

end Parser

/-! ## Recognizers side by side -/

variable [Nonempty σ'] [TokenSource σ] [TokenSource σ']

/-- **What every recognizer is made of goes side by side**; rules do if the limits are the same. -/
theorem Abreast.uniform (h : Abreast d out lost rel) :
    Uniform d (fun _ => True) (fun _ => ∀ m n, limits m n → m = n) True
      (fun {_} view x y => Parser.Parallel d limits out lost rel view x y) where
  of_pure h := .pure h
  of_throw h := .throw (congrArg Interrupt.recognition h)
  outOfSteps _ := .throw rfl
  of_bind h hnext := h.bind_view hnext
  -- looking and changing are by the caller's own proofs; everything that touches the input has one here
  of_get h := Parser.parallel_get h
  of_modify hf hg h := Parser.parallel_modify
    (fun p => ⟨congrArg Stream.source (hf p).input, (hf p).recursionLimit⟩)
    (fun q => ⟨congrArg Stream.source (hg q).input, (hg q).recursionLimit⟩) h
  ahead k := Parser.parallel_onInput (Stream.parallel_ahead h k)
  pass := Parser.parallel_onInput (Stream.parallel_consume h)
  single {ty} _ := by
    cases TokenSet.single? ty with
    | ok set => exact .pure rfl
    | error v => exact .throw rfl
  passOver set hconsume := Parser.parallel_passOver h hconsume set
  rule hlimits hfailure hbody := Parser.parallel_rule h hlimits _ hfailure hbody
  invoke follow hbody := Parser.parallel_invoke follow hbody
  speculate hbody := Parser.parallel_speculate h hbody
  attempt hbody := Parser.parallel_attempt hbody

/-- **An ordinary recognizer that goes by sketches**, on both sides. -/
theorem Recognizer.Ordinary.parallel_of_heeds {r : Recognizer α} (hr : r.Ordinary) (hheeds : r.Heeds d)
    (h : Abreast d out lost rel) : Parser.Parallel d Eq out lost rel id r.run r.run :=
  h.uniform.recognizer (hr.within.mono fun _ _ _ _ => id) hheeds

/-- **An ordinary recognizer on both sides.** -/
theorem Recognizer.Ordinary.parallel {r : Recognizer α} (hr : r.Ordinary)
    (h : Abreast .full out lost rel) :
    Parallel (fun p : Parser σ => out p.input.source) (Interrupt.Lost lost)
      (fun p q => ∃ u, rel p.input.source u ∧ q = p.over u) id id r.run r.run := by
  have hfull := hr.parallel_of_heeds r.heeds_full h
  have hsketch : Interrupt.sketch .full = id := funext Interrupt.sketch_full
  refine ⟨hfull.stays, fun p q hpq => ?_⟩
  refine (hfull.keeps p q (Parser.beside_full_iff.mpr hpq)).mono fun o p' ho => ho.imp_right fun hy => ?_
  refine hy.mono fun o' q' hq' => ⟨?_, Parser.beside_full_iff.mp hq'.2⟩
  rw [← hsketch]
  exact hq'.1

end

end TreeProjection
