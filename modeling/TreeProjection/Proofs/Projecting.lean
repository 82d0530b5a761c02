import TreeProjection.Projection.Session
import TreeProjection.Proofs.Hosting
import TreeProjection.Proofs.Lockstep
import TreeProjection.Proofs.Ordinary
import TreeProjection.Proofs.Replay

/-! # Projections as a whole

A projection that succeeds has gone through all its parts: the recognizer has read the host's tokens and made a
parse tree of them, the host has been taken back to the start, and the outline of the tree has been carried out
under the root, followed by the tokens that the tree does not hold.

* `Supervised.Passed` — a recognizer does nothing to a host but pass tokens.
* `Session.layOut`, `Session.answers_replayUnder` — what the second half of a projection does to a host.
* `Session.Recognized`, `Session.recognized` — what a recognition that has an outcome has done.
* `Session.exists_of_project_error` — where a projection that fails has failed.
* `Session.Projected`, `Session.projected` — what a projection that succeeds has done. -/

namespace TreeProjection

open ParseNode (View)

variable {β τ : Type} [TreeBuilder β τ]

/-! ## What becomes of the host while it is read -/

/-- **Some tokens have been passed** since a host had a builder, and nothing else has been done. -/
structure Supervised.Passed (b : β) (e : ElementTypes) (s : Supervised β) : Prop where
  /-- The kinds are the same. -/
  elements : s.elements = e
  /-- Tokens have been passed. -/
  builder : ∃ n, s.builder = TreeBuilder.advance^[n] b

/-- A host that has only passed tokens since a mark can be taken back to it. -/
theorem Supervised.Passed.rollback {host s : Supervised GreenBuilder} {e : ElementTypes}
    (h : s.Passed host.mark.2.builder e) : TreeBuilder.rollback s.builder host.mark.1 = .ok host.builder := by
  obtain ⟨-, n, hn⟩ := h
  rw [hn]
  exact GreenBuilder.rollback_iterate_advance host.builder n

/-- A pull passes a token, or none. -/
theorem Supervised.Passed.pull {b : β} {e : ElementTypes} {s : Supervised β} (h : s.Passed b e) :
    (TokenSource.pull s).2.Passed b e := by
  obtain ⟨helements, n, hn⟩ := h
  change (Supervised.pull s).2.Passed b e
  unfold Supervised.pull
  by_cases hcancelled : s.cancelled = true
  · rw [if_pos hcancelled]
    exact ⟨helements, n, hn⟩
  · rw [if_neg hcancelled]
    cases TreeBuilder.kind? s.builder with
    | none => exact ⟨helements, n, hn⟩
    | some kind =>
        refine ⟨helements, n + 1, ?_⟩
        rw [Function.iterate_succ_apply', ← hn]
        rfl

/-- **An ordinary recognizer does nothing to its host but pass tokens.** -/
theorem Recognizer.Ordinary.passed {α : Type} {r : Recognizer α} (hr : r.Ordinary) {b : β}
    {e : ElementTypes} {p : Parser (Supervised β)} (hp : p.input.source.Passed b e) :
    Ends r.run p fun _ q => q.input.source.Passed b e := by
  have : Nonempty (Supervised β) := ⟨p.input.source⟩
  have habreast : Abreast .full (fun s : Supervised β => s.Passed b e) (fun _ => False)
      (fun (_ : Supervised β) (_ : Supervised β) => False) :=
    ⟨fun _ h => h.pull, nofun, nofun, nofun, nofun⟩
  exact (hr.parallel habreast).stays p hp

/-- The parser of a run over a host, at the start of its tokens. -/
theorem Session.parser_fresh [CursorBuilder β] (s : Session) (l : Language) (host : Supervised β)
    (h : host.cursor.position = 0) :
    (s.parser l host).Fresh (host.cursor.tape host.elements) where
  reads := by
    have hfeeds := host.feeds
    rw [h, List.drop_zero] at hfeeds
    exact Stream.reads_ofSource hfeeds
  started := rfl
  strategy := rfl
  listeners := Nat.one_pos
  follow := rfl
  speculating := rfl
  frames := rfl
  tree := rfl
  reports := rfl
  recovery := rfl

/-- The outline of a whole parse passes the tokens that the parse has passed. -/
theorem Parser.Whole.tokensOf_ofView {x : Tape} {σ : Type} [TokenSource σ] {q : Parser σ}
    {r : RuleNode} {vs : List View} (h : q.Whole x r vs) (e : ElementTypes) (errors : ErrorIndex)
    (spent : List Nat) :
    Outline.tokensOf (Outline.ofView e errors spent (.rule r vs)).1 = x.between 0 q.index := by
  rw [Outline.tokensOf_ofView, View.read_rule, h.read]
  intro l hl hmatched
  rcases h.walk.of_mem (by simpa only [View.leaves] using hl) with ⟨hfalse, -⟩ | ⟨a, -, -, ha⟩
  · rw [hfalse] at hmatched
    cases hmatched
  · rw [ha, Tape.isConjured_token]

/-- The outline of a whole parse and what the parse has not reached pass all tokens of the host. -/
theorem Parser.Whole.length_tokensOf {c : HostCursor} {k : ElementTypes} {σ : Type} [TokenSource σ]
    {q : Parser σ} {r : RuleNode} {vs : List View} (h : q.Whole (c.tape k) r vs) (e : ElementTypes)
    (errors : ErrorIndex) (spent : List Nat) :
    (Outline.tokensOf (Outline.ofView e errors spent (.rule r vs)).1).length +
      ((c.tape k).between q.index c.tokens.size).length = c.tokens.size := by
  rw [h.tokensOf_ofView, ← List.length_append, ← HostCursor.size_tape k,
    Tape.between_append _ (Nat.zero_le _) h.standing.le_size,
    (HostCursor.plain_tape _ _).between (Nat.le_refl _)]
  simp

/-! ## Passing the tokens that are left -/

/-- How many tokens are left after one has been passed. -/
theorem CursorBuilder.remaining_advance [CursorBuilder β] (b : β) :
    TreeBuilder.remaining (TreeBuilder.advance b) = TreeBuilder.remaining b - 1 := by
  rw [remaining_eq, remaining_eq, cursor_advance]
  rcases Nat.lt_or_ge (cursor b).position (cursor b).tokens.size with h | h
  · rw [HostCursor.pass_of_lt h]
    simp only [HostCursor.remaining, HostCursor.next]
    omega
  · rw [HostCursor.pass_of_le h]
    simp only [HostCursor.remaining]
    omega

namespace Outline

mutual

/-- **Carrying out an outline passes its tokens**, as far as there are tokens. -/
theorem remaining_build [CursorBuilder β] : ∀ {o : Outline} {b b' : β}, build o b = .ok b' →
    TreeBuilder.remaining b' = TreeBuilder.remaining b - o.tokens.length
  | .token t, b, b', h => by
      rw [build] at h
      cases h
      exact CursorBuilder.remaining_advance b
  | .node kind parts, b, b', h => by
      simp only [build, bind, Except.bind] at h
      split at h
      · cases h
      · rename_i b₁ hparts
        have hinside := remaining_builds hparts
        rw [CursorBuilder.remaining_eq (TreeBuilder.mark b).2, CursorBuilder.cursor_mark,
          ← CursorBuilder.remaining_eq] at hinside
        rw [CursorBuilder.remaining_eq, CursorBuilder.cursor_done h, ← CursorBuilder.remaining_eq]
        exact hinside
  | .error message parts, b, b', h => by
      simp only [build, bind, Except.bind] at h
      split at h
      · cases h
      · rename_i b₁ hparts
        have hinside := remaining_builds hparts
        rw [CursorBuilder.remaining_eq (TreeBuilder.mark b).2, CursorBuilder.cursor_mark,
          ← CursorBuilder.remaining_eq] at hinside
        rw [CursorBuilder.remaining_eq, CursorBuilder.cursor_error h, ← CursorBuilder.remaining_eq]
        exact hinside

/-- Carrying out outlines passes their tokens, as far as there are tokens. -/
theorem remaining_builds [CursorBuilder β] : ∀ {os : List Outline} {b b' : β}, builds os b = .ok b' →
    TreeBuilder.remaining b' = TreeBuilder.remaining b - (tokensOf os).length
  | [], b, b', h => by
      cases h
      rfl
  | o :: rest, b, b', h => by
      simp only [builds, bind, Except.bind] at h
      split at h
      · cases h
      · rename_i b₁ ho
        rw [remaining_builds h, remaining_build ho, tokensOf, List.length_append, Nat.sub_sub]

end

end Outline

namespace Session

variable [CursorBuilder β]

/-- How many tokens are left after some have been passed. -/
theorem remaining_iterate (host : Supervised β) (n : Nat) :
    TreeBuilder.remaining (Supervised.advance^[n] host).builder = TreeBuilder.remaining host.builder - n := by
  induction n with
  | zero => rfl
  | succ n ih =>
      rw [Function.iterate_succ_apply', Supervised.advance, Supervised.counted, CursorBuilder.remaining_advance, ih,
        Nat.sub_sub]

omit [CursorBuilder β] in
/-- Passing as many tokens as there are in `ts` carries out their outlines. -/
theorem played_drained (p : Projector β) (ts : List Token) :
    Projector.Played p (ts.map .token) p.spent { p with host := Supervised.advance^[ts.length] p.host } := by
  induction ts generalizing p with
  | nil => exact ⟨rfl, rfl, rfl, rfl, rfl⟩
  | cons t ts ih =>
      obtain ⟨-, -, -, helements, hbuild⟩ := ih { p with host := p.host.advance }
      refine ⟨rfl, rfl, rfl, helements, ?_⟩
      rw [List.map_cons, Outline.builds, Outline.build]
      exact hbuild

omit [CursorBuilder β] in
/-- **Replaying a tree from its root**, that of a rule, carries out the outline of the tree. -/
theorem answers_replay {p : Projector β} {t : ParseTree} {r : RuleNode} {vs : List View}
    (hroot : t.root = some 0) (hsize : t.size = (View.rule r vs).size)
    (h : t.Shows 0 (.rule r vs)) : Answers (Projector.replay t) p fun _ q =>
      Projector.Played p (Outline.ofView p.host.elements p.errors p.spent (.rule r vs)).1
        (Outline.ofView p.host.elements p.errors p.spent (.rule r vs)).2 q ∧
      p.host.cancelled = false := by
  rw [Projector.replay_eq hroot hsize h]
  refine Answers.bind ((Projector.answers_replayView _ _).and
    (Projector.answers_replayView_rule r vs)) ?_
  rintro _ q hq
  change Ends _ q _
  rw [ends_get_bind]
  cases q.markers.isEmpty with
  | false => exact fun _ h => nomatch h
  | true => exact fun _ _ => hq

/-- Take the host back to a mark. -/
def rewind (snapshot : Nat) : ProjectorM β Unit := do
  let p ← get
  let host ← Projector.orBroken (p.host.rollback snapshot)
  set { p with host }

omit [CursorBuilder β] in
/-- Taking the host back does nothing else. -/
theorem answers_rewind {p : Projector β} (snapshot : Nat) : Answers (rewind snapshot) p fun _ q =>
    ∃ b, TreeBuilder.rollback p.host.builder snapshot = .ok b ∧
      q = { p with host := { p.host with builder := b } } := by
  unfold rewind
  change Ends _ p _
  rw [ends_get_bind]
  refine (Projector.answers_orBroken _).bind ?_
  rintro host q ⟨hhost, hq⟩
  unfold Supervised.rollback at hhost
  cases hb : TreeBuilder.rollback p.host.builder snapshot with
  | error v =>
      rw [hb] at hhost
      cases hhost
  | ok b =>
      rw [hb] at hhost
      cases hhost
      rw [hq]
      exact fun _ _ => ⟨b, rfl, rfl⟩

/-- All of the second half of a projection but handing over the tree. -/
def layOut (snapshot : Nat) (root : Kind) (tree : ParseTree) : ProjectorM β Unit := do
  rewind snapshot
  let marker ← Projector.mark
  Projector.replay tree
  let drained ← drain (TreeBuilder.remaining (← get).host.builder) 0
  Projector.tell (.drain drained)
  Projector.count fun s => { s with drained }
  Projector.done marker root

omit [CursorBuilder β] in
/-- In the end the tree is handed over. -/
theorem replayUnder_eq (snapshot : Nat) (root : Kind) (tree : ParseTree) :
    (replayUnder (τ := τ) snapshot root tree : ProjectorM β τ) = (do
      layOut snapshot root tree
      Projector.orBroken (TreeBuilder.finish (← get).host.builder)) := by
  simp only [replayUnder, layOut, rewind, bind_assoc]

/-- **How laying out a tree has gone**: the host has been taken back, the tree has been replayed inside of a region for
the root, the tokens that were left have been passed, and the region has been closed. -/
structure LaidOut (snapshot : Nat) (root : Kind) (t : ParseTree) (p : Projector β) (b : β) (p₁ : Projector β)
    (drained : Nat) (q : Projector β) : Prop where
  /-- The host has been taken back. -/
  back : TreeBuilder.rollback p.host.builder snapshot = .ok b
  /-- The tree has been replayed. -/
  replayed : Projector.replay t (Projector.marked { p with host := { p.host with builder := b } }) = .ok () p₁
  /-- No more tokens have been passed than were left. -/
  room : drained ≤ TreeBuilder.remaining p₁.host.builder
  /-- Those that were left have been passed. -/
  all : drained = TreeBuilder.remaining p₁.host.builder ∨
    TreeBuilder.atEnd (Supervised.advance^[drained] p₁.host).builder = true
  /-- The region of the root has been closed. -/
  closed : TreeBuilder.done (Supervised.advance^[drained] p₁.host).builder (TreeBuilder.mark b).1 root =
    .ok q.host.builder
  /-- The tokens that were left have been counted, and nothing else. -/
  stats : q.stats = { p₁.stats with drained }

omit [CursorBuilder β] in
/-- **A tree that is laid out** has gone through all the stages. -/
theorem exists_laidOut {p : Projector β} (snapshot : Nat) (root : Kind) (t : ParseTree) :
    Answers (layOut snapshot root t) p fun _ q => ∃ b p₁ drained, LaidOut snapshot root t p b p₁ drained q := by
  unfold layOut
  refine (answers_rewind snapshot).bind ?_
  rintro _ _ ⟨b, hback, rfl⟩
  refine Projector.answers_mark.bind ?_
  rintro _ _ ⟨rfl, rfl⟩
  refine Ends.bind (Ends.self _ _) (fun _ p₁ hreplayed => ?_) fun _ _ _ => nofun
  rw [ends_get_bind]
  refine (drain_ends _ 0 p₁).bind ?_ fun _ _ _ => nofun
  rintro _ _ ⟨n, hroom, rfl, ⟨⟨⟩⟩ | ⟨⟨⟩, hall⟩⟩
  rw [Nat.zero_add]
  unfold Projector.tell Projector.count
  rw [ends_modify_bind, ends_modify_bind]
  refine (Projector.answers_done _ _).mono ?_
  rintro _ _ ⟨b', hclosed, rfl⟩
  exact ⟨b, p₁, n, hback, hreplayed, hroom, hall, hclosed, rfl⟩

/-- **The tree has carried out its outline** then, and the tokens that were left are as many as the tree does not hold. -/
theorem LaidOut.played {p p₁ q : Projector β} {snapshot drained : Nat} {root : Kind} {t : ParseTree} {b : β}
    (hlaid : LaidOut snapshot root t p b p₁ drained q) {r : RuleNode} {vs : List View} (hroot : t.root = some 0)
    (hsize : t.size = (View.rule r vs).size) (h : t.Shows 0 (.rule r vs)) (hspent : p.spent = []) {ts : List Token}
    (hts : TreeBuilder.remaining b = (Outline.tokensOf
      (Outline.ofView p.host.elements p.errors [] (.rule r vs)).1).length + ts.length) :
    p.host.cancelled = false ∧ drained = ts.length ∧
      Projector.Played (Projector.marked { p with host := { p.host with builder := b } })
        (Outline.ofView p.host.elements p.errors [] (.rule r vs)).1
        (Outline.ofView p.host.elements p.errors [] (.rule r vs)).2 p₁ := by
  obtain ⟨hplayed, hcancelled⟩ := (answers_replay hroot hsize h).of_ok hlaid.replayed
  have hplayed : Projector.Played (Projector.marked { p with host := { p.host with builder := b } })
      (Outline.ofView p.host.elements p.errors p.spent (.rule r vs)).1
      (Outline.ofView p.host.elements p.errors p.spent (.rule r vs)).2 p₁ := hplayed
  rw [hspent] at hplayed ⊢
  refine ⟨(Bool.or_eq_false_iff.mp hcancelled).1, ?_, hplayed⟩
  have hbuild : Outline.builds _ (TreeBuilder.mark b).2 = .ok p₁.host.builder := hplayed.build
  -- what the tree does not hold is left over
  have hleft : TreeBuilder.remaining p₁.host.builder = ts.length := by
    rw [Outline.remaining_builds hbuild, CursorBuilder.remaining_eq,
      CursorBuilder.cursor_mark, ← CursorBuilder.remaining_eq, hts, Nat.add_sub_cancel_left]
  -- at the end of the host nothing is left, so that no more tokens could have been passed
  have hroom := hlaid.room
  refine hlaid.all.elim (fun hall => hall.trans hleft) fun hend => ?_
  have hnone := remaining_iterate p₁.host drained
  rw [hleft, CursorBuilder.remaining_eq, HostCursor.remaining] at hnone
  rw [CursorBuilder.atEnd_eq, HostCursor.atEnd, decide_eq_true_eq] at hend
  omega

/-- **What is laid out**: the outline of the tree is carried out under the root, followed by the tokens `ts` that are
left. -/
theorem answers_layOut {p : Projector β} (snapshot : Nat) (root : Kind) {t : ParseTree}
    {r : RuleNode} {vs : List View} (hroot : t.root = some 0)
    (hsize : t.size = (View.rule r vs).size) (h : t.Shows 0 (.rule r vs)) (hspent : p.spent = [])
    {ts : List Token}
    (hts : ∀ b, TreeBuilder.rollback p.host.builder snapshot = .ok b →
      TreeBuilder.remaining b = (Outline.tokensOf
        (Outline.ofView p.host.elements p.errors [] (.rule r vs)).1).length + ts.length) :
    Answers (layOut snapshot root t) p fun _ q =>
      p.host.cancelled = false ∧ ∃ b, TreeBuilder.rollback p.host.builder snapshot = .ok b ∧
        Outline.build (.node root ((Outline.ofView p.host.elements p.errors [] (.rule r vs)).1 ++
          ts.map .token)) b = .ok q.host.builder := by
  refine (exists_laidOut snapshot root t).mono ?_
  rintro _ q ⟨b, p₁, _, hlaid⟩
  obtain ⟨hcancelled, rfl, hplayed⟩ := hlaid.played hroot hsize h hspent (hts b hlaid.back)
  have hbuilt : Outline.builds _ (TreeBuilder.mark b).2 = _ := (hplayed.trans (played_drained p₁ ts)).build
  refine ⟨hcancelled, b, hlaid.back, ?_⟩
  simp only [Outline.build, bind, Except.bind, hbuilt]
  exact hlaid.closed

/-- **What is laid out over a source**, if the host is taken back to its start, and the tree and the tokens `ts` that are
left are all tokens of the source. -/
theorem answers_layOut_ofText {h : HostText} {l : Language} {p : Projector GreenBuilder} {snapshot : Nat}
    (root : Kind) {t : ParseTree} {r : RuleNode} {vs : List View} (hroot : t.root = some 0)
    (hsize : t.size = (View.rule r vs).size) (hshows : t.Shows 0 (.rule r vs)) (hspent : p.spent = [])
    (hback : TreeBuilder.rollback p.host.builder snapshot = .ok (GreenBuilder.ofText h l)) {ts : List Token}
    (hlen : (Outline.tokensOf (Outline.ofView p.host.elements p.errors [] (.rule r vs)).1).length + ts.length =
      (h.significant l).length) :
    Answers (layOut snapshot root t) p fun _ q =>
      Outline.build (.node root ((Outline.ofView p.host.elements p.errors [] (.rule r vs)).1 ++
        ts.map .token)) (GreenBuilder.ofText h l) = .ok q.host.builder := by
  have hts : ∀ b, TreeBuilder.rollback p.host.builder snapshot = .ok b →
      TreeBuilder.remaining b = (Outline.tokensOf
        (Outline.ofView p.host.elements p.errors [] (.rule r vs)).1).length + ts.length := by
    intro b hb
    obtain rfl : GreenBuilder.ofText h l = b := Except.ok.inj (hback.symm.trans hb)
    rw [hlen]
    change ((h.significant l).toArray).size - 0 = _
    rw [Nat.sub_zero, List.size_toArray]
  refine (answers_layOut snapshot root hroot hsize hshows hspent hts).mono ?_
  rintro _ q ⟨-, b, hb, hbuild⟩
  obtain rfl : GreenBuilder.ofText h l = b := Except.ok.inj (hback.symm.trans hb)
  exact hbuild

/-- **What the second half of a projection does**: the outline of the tree is carried out under the root,
followed by the tokens `ts` that are left. -/
theorem answers_replayUnder {p : Projector β} (snapshot : Nat) (root : Kind) {t : ParseTree}
    {r : RuleNode} {vs : List View} (hroot : t.root = some 0)
    (hsize : t.size = (View.rule r vs).size) (h : t.Shows 0 (.rule r vs)) (hspent : p.spent = [])
    {ts : List Token}
    (hts : ∀ b, TreeBuilder.rollback p.host.builder snapshot = .ok b →
      TreeBuilder.remaining b = (Outline.tokensOf
        (Outline.ofView p.host.elements p.errors [] (.rule r vs)).1).length + ts.length) :
    Answers (replayUnder (τ := τ) snapshot root t) p fun tree _ =>
      p.host.cancelled = false ∧ ∃ b b', TreeBuilder.rollback p.host.builder snapshot = .ok b ∧
        Outline.build (.node root ((Outline.ofView p.host.elements p.errors [] (.rule r vs)).1 ++
          ts.map .token)) b = .ok b' ∧ TreeBuilder.finish b' = .ok tree := by
  rw [replayUnder_eq]
  refine (answers_layOut snapshot root hroot hsize h hspent hts).bind ?_
  rintro _ q ⟨hcancelled, b, hback, hbuild⟩
  change Ends _ q _
  rw [ends_get_bind]
  refine (Projector.answers_orBroken _).mono ?_
  rintro tree _ ⟨hfinish, -⟩
  exact ⟨hcancelled, b, _, hback, hbuild, hfinish⟩

/-- **What a recognition that has an outcome has done.** -/
structure Recognized (s : Session) (g : Grammar) (entry : RuleIndex) (host : Supervised β)
    (t : ParseTree) (errors : ErrorIndex) (q : Parser (Supervised β)) (r : RuleNode)
    (vs : List View) : Prop where
  /-- The recognizer has gone through. -/
  run : (g.entry (stepsFor (TreeBuilder.remaining host.builder)) entry).run
    (s.parser g.language host) = .ok () q
  /-- This is its tree. -/
  tree : t = q.tree
  /-- These are its errors. -/
  errors : errors = .ofReports q.reports
  /-- This is the host that it has left. -/
  left : (s.runRecognizer g entry host).host = q.input.source
  /-- It has made a parse tree. -/
  whole : q.Whole (host.cursor.tape host.elements) r vs
  /-- It has done nothing to the host but pass tokens. -/
  passed : q.input.source.Passed host.builder host.elements
  /-- It has placed its errors at tokens of the host. -/
  anchored : q.Anchored (host.cursor.tape host.elements)

/-- **A recognition that has an outcome** has done all that. -/
theorem recognized {s : Session} {g : Grammar} {entry : RuleIndex} {host : Supervised β}
    {t : ParseTree} {errors : ErrorIndex}
    (hrule : (g.entry (stepsFor (TreeBuilder.remaining host.builder)) entry).OrdinaryRule)
    (hstart : host.cursor.position = 0)
    (hok : (s.runRecognizer g entry host).outcome = .ok (t, errors)) :
    ∃ q r vs, s.Recognized g entry host t errors q r vs := by
  have hruns := hrule.runs (s.parser_fresh g.language host hstart)
  cases hrun : (g.entry (stepsFor (TreeBuilder.remaining host.builder)) entry).run
      (s.parser g.language host) with
  | ok a q =>
      have hpassed := Ends.of_ok (hrule.ordinary.passed (b := host.builder) (e := host.elements)
        ⟨rfl, 0, rfl⟩) hrun
      obtain ⟨-, ⟨r, vs, hwhole⟩, hanchored⟩ := Ends.of_ok hruns hrun
      simp only [runRecognizer, hrun] at hok
      cases hok
      refine ⟨q, r, vs, hrun, rfl, rfl, ?_, hwhole, hpassed, hanchored⟩
      simp only [runRecognizer, hrun]
  | error i q =>
      have hend := Ends.of_error hruns hrun
      cases i with
      | recognition e => exact nomatch hend.1
      | abort a =>
          simp only [runRecognizer, hrun] at hok
          cases hok

omit [CursorBuilder β] in
/-- What a projection of a rule of the language has written down is what its recognition has. -/
theorem journal_project {s : Session} {g : Grammar} {entry : RuleIndex} {root : Kind} {host : Supervised β}
    (hvalid : g.language.checkEntry entry = .ok ()) : (s.project (τ := τ) g entry root host).1.journal =
      (s.runRecognizer g entry host.mark.2).journal := by
  have hends := s.projects (τ := τ) g entry root host
  generalize s.project (τ := τ) g entry root host = made at hends ⊢
  cases hends with
  | refused rule =>
      rw [hvalid] at rule
      cases rule
  | givenUp | stopped | finished => rfl

omit [CursorBuilder β] in
/-- A projection that succeeds is one of a rule of the language, whose recognition has an outcome that has been
replayed. -/
theorem exists_of_project_ok {s : Session} {g : Grammar} {entry : RuleIndex} {root : Kind}
    {host : Supervised β} {tree : τ} (hok : (s.project g entry root host).1.outcome = .ok tree) :
    g.language.checkEntry entry = .ok () ∧ ∃ t errors p,
      (s.runRecognizer g entry host.mark.2).outcome = .ok (t, errors) ∧
      replayUnder host.mark.1 root t ((s.runRecognizer g entry host.mark.2).start errors) = .ok tree p := by
  have hends := s.projects (τ := τ) g entry root host
  generalize s.project (τ := τ) g entry root host = made at hends hok
  cases hends with
  | refused | givenUp | stopped => cases hok
  | finished rule outcome replay =>
      cases hok
      exact ⟨rule, _, _, _, outcome, replay⟩

omit [CursorBuilder β] in
/-- A projection that fails refuses the rule, or its recognition has been given up, or the replay has. -/
theorem exists_of_project_error {s : Session} {g : Grammar} {entry : RuleIndex} {root : Kind}
    {host : Supervised β} {a : Abort}
    (hfails : (s.project (τ := τ) g entry root host).1.outcome = .error a) :
    (∃ e, g.language.checkEntry entry = .error e ∧ a = .error e) ∨
      (s.runRecognizer g entry host.mark.2).outcome = .error a ∨ ∃ t errors p,
        (s.runRecognizer g entry host.mark.2).outcome = .ok (t, errors) ∧
        replayUnder (τ := τ) host.mark.1 root t ((s.runRecognizer g entry host.mark.2).start errors) =
          .error a p := by
  have hends := s.projects (τ := τ) g entry root host
  generalize s.project (τ := τ) g entry root host = made at hends hfails
  cases hends with
  | finished => cases hfails
  | refused rule =>
      cases hfails
      exact .inl ⟨_, rule, rfl⟩
  | givenUp _ outcome =>
      cases hfails
      exact .inr (.inl outcome)
  | stopped _ outcome replay =>
      cases hfails
      exact .inr (.inr ⟨_, _, _, outcome, replay⟩)

/-- **What a projection that succeeds has done.** -/
structure Projected (s : Session) (g : Grammar) (entry : RuleIndex) (root : Kind)
    (host : Supervised β) (tree : τ) (q : Parser (Supervised β)) (r : RuleNode) (vs : List View) :
    Prop where
  /-- The language has the rule. -/
  valid : g.language.checkEntry entry = .ok ()
  /-- The recognizer has gone through. -/
  run : (g.entry (stepsFor (TreeBuilder.remaining host.builder)) entry).run
    (s.parser g.language host.mark.2) = .ok () q
  /-- It has made a parse tree. -/
  whole : q.Whole (host.cursor.tape host.elements) r vs
  /-- The run has not been called off. -/
  cancelled : q.input.source.cancelled = false
  /-- The outline of the tree has been carried out under the root, followed by the tokens that are left. -/
  built : ∃ n b b', TreeBuilder.rollback (TreeBuilder.advance^[n] host.mark.2.builder)
      host.mark.1 = .ok b ∧
    Outline.build (.node root
      ((Outline.ofView host.elements (.ofReports q.reports) [] (.rule r vs)).1 ++
        ((host.cursor.tape host.elements).between q.index host.cursor.tokens.size).map .token)) b =
      .ok b' ∧ TreeBuilder.finish b' = .ok tree

/-- **Where a host that has only been read is taken back to**, all of its tokens are still to come: those that the
outline of a whole parse passes, and those that the parse has not reached. -/
theorem remaining_rollback {host u : Supervised β} (hpassed : u.Passed host.mark.2.builder host.elements)
    (hstart : host.cursor.position = 0) {q : Parser (Supervised β)} {r : RuleNode} {vs : List View}
    (hwhole : q.Whole (host.cursor.tape host.elements) r vs) (e : ElementTypes) (errors : ErrorIndex) :
    ∀ b, TreeBuilder.rollback u.builder host.mark.1 = .ok b → TreeBuilder.remaining b =
      (Outline.tokensOf (Outline.ofView e errors [] (.rule r vs)).1).length +
        ((host.cursor.tape host.elements).between q.index host.cursor.tokens.size).length := by
  intro b hb
  obtain ⟨-, n, hbuilder⟩ := hpassed
  rw [hbuilder] at hb
  have hback : CursorBuilder.cursor b = host.cursor := CursorBuilder.cursor_rollback hb
  rw [CursorBuilder.remaining_eq, hback, HostCursor.remaining, hstart, hwhole.length_tokensOf, Nat.sub_zero]

/-- **A projection that succeeds** has done all that. -/
theorem projected {s : Session} {g : Grammar} {entry : RuleIndex} {root : Kind}
    {host : Supervised β} {tree : τ}
    (hrule : (g.entry (stepsFor (TreeBuilder.remaining host.builder)) entry).OrdinaryRule)
    (hstart : host.cursor.position = 0)
    (hok : (s.project g entry root host).1.outcome = .ok tree) :
    ∃ q r vs, s.Projected g entry root host tree q r vs := by
  obtain ⟨hvalid, t, errors, p, houtcome, hreplay⟩ := exists_of_project_ok hok
  rw [← host.remaining_mark] at hrule
  obtain ⟨q, r, vs, hrun, rfl, rfl, hleft, hwhole, ⟨helements, n, hbuilder⟩, -⟩ :=
    recognized hrule ((congrArg HostCursor.position host.cursor_mark).trans hstart) houtcome
  rw [host.remaining_mark] at hrun
  rw [host.cursor_mark] at hwhole
  change q.Whole (host.cursor.tape host.elements) r vs at hwhole
  have hsource : q.input.source.elements = host.elements := helements
  have hpassed : q.input.source.Passed host.mark.2.builder host.elements := ⟨helements, n, hbuilder⟩
  rw [Recognition.start, hleft] at hreplay
  obtain ⟨hcancelled, b, b', hb, hbuild, hfinish⟩ := (answers_replayUnder host.mark.1 root hwhole.root
    hwhole.size hwhole.shows rfl (remaining_rollback hpassed hstart hwhole _ _)).of_ok hreplay
  rw [hbuilder] at hb
  rw [hsource] at hbuild
  exact ⟨q, r, vs, hvalid, hrun, hwhole, hcancelled, n, b, b', hb, hbuild, hfinish⟩

/-! ## The recognizer on its own -/

/-- **A host that has been marked, and one that has not**: the first has counted one call more, and it is not
called off where the second would be. -/
structure Ahead (marked unmarked : Supervised β) : Prop where
  /-- Neither is called off. -/
  cancelled : marked.cancelled = false ∧ unmarked.cancelled = false
  /-- Both have the same kinds. -/
  elements : marked.elements = unmarked.elements
  /-- Both read the same. -/
  cursor : marked.cursor = unmarked.cursor
  /-- Both are to be called off by the same call. -/
  cancelAt : marked.cancelAt = unmarked.cancelAt
  /-- The end calls off both or neither. -/
  cancelAtEnd : marked.cancelAtEnd = unmarked.cancelAtEnd
  /-- The first is one call ahead. -/
  calls : marked.calls = unmarked.calls + 1
  /-- That call is not the one. -/
  passed : marked.cancelAt ≠ some marked.calls

/-- The two give the same tokens, unless the first is called off. -/
theorem abreast_ahead :
    Abreast .full (fun s : Supervised β => s.cancelled = true) (fun _ => False) Ahead where
  stays s hs := by
    rw [Supervised.pull_eq, if_pos hs]
    exact hs
  pull s t h := by
    rw [Supervised.pull_eq, Supervised.pull_eq, if_neg (by simp [h.cancelled.1]),
      if_neg (by simp [h.cancelled.2]), h.cursor, h.elements]
    -- the flag may be set by the end of the input or by this call; the second host never sets it
    cases t.cursor.current? with
    | none =>
        cases hend : s.cancelAtEnd with
        | true => exact .inl (.inl (by simp [Supervised.exhausted, hend]))
        | false =>
            have hend' : t.cancelAtEnd = false := h.cancelAtEnd.symm.trans hend
            refine .inr ⟨rfl, ⟨?_, ?_⟩, h.elements, h.cursor, h.cancelAt, h.cancelAtEnd, h.calls, h.passed⟩
            · simp [Supervised.exhausted, h.cancelled.1, hend]
            · simp [Supervised.exhausted, h.cancelled.2, hend']
    | some u =>
        by_cases hnow : s.cancelAt = some (s.calls + 1)
        · refine .inl (.inl ?_)
          simp [Supervised.advance, Supervised.counted, hnow]
        · refine .inr ⟨rfl, ⟨?_, ?_⟩, h.elements, ?_, h.cancelAt, h.cancelAtEnd,
            congrArg (· + 1) h.calls, hnow⟩
          · simpa [Supervised.advance, Supervised.counted, h.cancelled.1] using hnow
          · have hpassed := h.passed
            rw [h.calls, h.cancelAt] at hpassed
            simpa [Supervised.advance, Supervised.counted, h.cancelled.2] using hpassed
          · rw [Supervised.cursor_advance, Supervised.cursor_advance, h.cursor]
  cancelled s t h := .inl (h.cancelled.1.trans h.cancelled.2.symm)
  bound s t h := by
    change TreeBuilder.remaining s.builder = TreeBuilder.remaining t.builder
    rw [CursorBuilder.remaining_eq, CursorBuilder.remaining_eq]
    exact congrArg HostCursor.remaining h.cursor
  fails := nofun

/-- **The recognizer on its own** makes the tree that a projection that succeeds is made of. -/
theorem Projected.recognize {s : Session} {g : Grammar} {entry : RuleIndex} {root : Kind}
    {host : Supervised β} {tree : τ} {q : Parser (Supervised β)} {r : RuleNode} {vs : List View}
    (h : s.Projected g entry root host tree q r vs)
    (hrule : (g.entry (stepsFor (TreeBuilder.remaining host.builder)) entry).OrdinaryRule) :
    (s.recognize g entry host).1.outcome = .ok (q.tree, .ofReports q.reports) := by
  have : Nonempty (Supervised β) := ⟨host⟩
  have hparallel := hrule.ordinary.parallel (abreast_ahead (β := β))
  have hrun : ∃ q', (g.entry (stepsFor (TreeBuilder.remaining host.builder)) entry).run
      (s.parser g.language host) = .ok () q' ∧ ∃ u, q' = q.over u := by
    by_cases hmarked : host.mark.2.cancelled = true
    · -- then it would still be called off at the end
      have hout := Ends.of_ok (hparallel.stays (s.parser g.language host.mark.2) hmarked) h.run
      exact absurd hout (by simp [h.cancelled])
    · have hahead : Ahead host.mark.2 host := by
        simp only [Supervised.mark, Supervised.counted, Bool.or_eq_true, beq_iff_eq, not_or] at hmarked
        refine ⟨⟨?_, by simpa using hmarked.1⟩, rfl, host.cursor_mark, rfl, rfl,
          rfl, hmarked.2⟩
        simpa [Supervised.mark, Supervised.counted] using hmarked
      have hends := Ends.of_ok (hparallel.keeps (s.parser g.language host.mark.2)
        (s.parser g.language host) ⟨host, hahead, rfl⟩) h.run
      obtain ⟨_, q', -, ⟨u, -, hu⟩, hq'⟩ := Ends.exists_of_like_ok
        (hends.resolve_left (by simp [h.cancelled]))
      exact ⟨q', hq', u, hu⟩
  obtain ⟨_, hrun, u, rfl⟩ := hrun
  unfold Session.recognize
  rw [h.valid]
  simp only [runRecognizer, hrun]
  rfl

end Session

end TreeProjection
