import TreeProjection.Proofs.Alongside
import TreeProjection.Proofs.Sample.Shape
import TreeProjection.Sample.Parse

/-! # Calling a run off

A run looks at its cancellation flag again and again: at each pull, where rules begin and end, and before it passes
a token that the recognizer did not reach.  However late the flag is set, either one of these looks finds it and
the run fails, or the run does what it does where the flag is never set.  A look that finds the flag during a trial may
be overruled by a syntax error, but then another one comes before the run is over.

* `Supervised.unflagged` — the same host, where nothing ever sets the flag.
* `Session.runRecognizer_unflagged` — recognition is all or nothing.
* `Projector.AllOrNothing` — an action of a projection is all or nothing.
* `Session.flagAtExit?` — whether the flag is set when the projection is about to leave the entry rule.
* `Session.project_all_or_nothing` — calling off a projection is all or nothing. -/

namespace TreeProjection

variable {α β τ : Type} [TreeBuilder β τ]

/-! ## Hosts where nothing sets the flag -/

namespace Supervised

/-- The same host, where the flag is not set and nothing ever sets it. -/
def unflagged (s : Supervised β) : Supervised β :=
  { s with cancelled := false, cancelAt := none, cancelAtEnd := false }

/-- Opening a region on both hosts. -/
theorem mark_unflagged (s : Supervised β) :
    s.unflagged.mark = (s.mark.1, s.mark.2.unflagged) := rfl

/-- Closing a region as a node on both hosts. -/
theorem done_unflagged (s : Supervised β) (marker : Nat) (kind : Kind) :
    s.unflagged.done marker kind = (s.done marker kind).map unflagged := by
  unfold done
  change (TreeBuilder.done s.builder marker kind >>= _) = _
  cases TreeBuilder.done s.builder marker kind <;> rfl

/-- Closing a region as an error element on both hosts. -/
theorem error_unflagged (s : Supervised β) (marker : Nat) (message : String) :
    s.unflagged.error marker message = (s.error marker message).map unflagged := by
  unfold error
  change (TreeBuilder.error s.builder marker message >>= _) = _
  cases TreeBuilder.error s.builder marker message <;> rfl

/-- Dropping a region on both hosts. -/
theorem rollback_unflagged (s : Supervised β) (marker : Nat) :
    s.unflagged.rollback marker = (s.rollback marker).map unflagged := by
  unfold rollback
  change (TreeBuilder.rollback s.builder marker >>= _) = _
  cases TreeBuilder.rollback s.builder marker <;> rfl

/-- A pull fails only if the run has been called off. -/
theorem pull_error {s : Supervised β} {e : Error} (h : (TokenSource.pull s).1 = .error e) :
    e = .cancelled := by
  change (pull s).1 = .error e at h
  unfold pull at h
  by_cases hcancelled : s.cancelled = true
  · rw [if_pos hcancelled] at h
    exact (Except.error.inj h).symm
  · rw [if_neg hcancelled] at h
    cases hkind : TreeBuilder.kind? s.builder with
    | none =>
        rw [hkind] at h
        cases h
    | some kind =>
        rw [hkind] at h
        cases h

/-- **A host and the same host where nothing sets the flag** go side by side until the flag is found. -/
theorem abreast_unflagged : Abreast .full (fun _ : Supervised β => False) (· = .cancelled)
    fun s u => u = s.unflagged where
  stays _ h := h
  pull := by
    rintro s _ rfl
    change (False ∨ ∃ e, (pull s).1 = .error e ∧ e = .cancelled) ∨
      (sketchOutcome id (Token.sketch .full) (pull s).1 =
        sketchOutcome id (Token.sketch .full) (pull s.unflagged).1 ∧
        (pull s.unflagged).2 = (pull s).2.unflagged)
    -- A pull finds the flag, or it does what it does where there is none.
    by_cases hcancelled : s.cancelled = true
    · refine .inl (.inr ⟨.cancelled, ?_, rfl⟩)
      unfold pull
      rw [if_pos hcancelled]
    · refine .inr ?_
      have hpull : pull s.unflagged = ((pull s).1, (pull s).2.unflagged) := by
        unfold pull
        rw [if_neg hcancelled, if_neg (by exact Bool.false_ne_true)]
        rw [show s.unflagged.builder = s.builder from rfl]
        cases TreeBuilder.kind? s.builder <;> rfl
      rw [hpull]
      exact ⟨rfl, rfl⟩
  cancelled := by
    rintro s _ rfl
    change s.cancelled = false ∨ (s.cancelled = true ∧ _)
    cases s.cancelled with
    | false => exact .inl rfl
    | true => exact .inr ⟨rfl, rfl⟩
  bound := by
    rintro s _ rfl
    rfl
  fails _ _ _ _ hfails := pull_error hfails

end Supervised

/-- **Recognition is all or nothing.** -/
theorem Session.runRecognizer_unflagged {s : Session} {g : Grammar} {entry : RuleIndex}
    {host : Supervised β}
    (hr : (g.entry (stepsFor (TreeBuilder.remaining host.builder)) entry).Ordinary) :
    (s.runRecognizer g entry host).outcome = .error (.error .cancelled) ∨
      s.runRecognizer g entry host.unflagged = { s.runRecognizer g entry host with
        host := (s.runRecognizer g entry host).host.unflagged } := by
  have : Nonempty (Supervised β) := ⟨host⟩
  have hsteps : TreeBuilder.remaining host.unflagged.builder = TreeBuilder.remaining host.builder :=
    rfl
  rcases (hr.parallel Supervised.abreast_unflagged).together (s := s.parser g.language host)
      (t := s.parser g.language host.unflagged) ⟨_, rfl, rfl⟩ with
    ⟨i, p, hrun, hlost⟩ | ⟨_, _, p, _, hrun, hrun', -, _, rfl, rfl⟩ | ⟨i, _, p, _, hrun, hrun', rfl, _, rfl, rfl⟩
  · -- the only reason that is lost is the flag
    match i, hlost with
    | .abort (.error e), hlost =>
        obtain rfl : e = .cancelled := hlost
        refine .inl ?_
        simp only [runRecognizer, hrun]
  · refine .inr ?_
    simp only [runRecognizer, hsteps, hrun, hrun']
    rfl
  · refine .inr ?_
    cases i with
    | recognition e =>
        simp only [runRecognizer, hsteps, hrun, hrun']
        rfl
    | abort a =>
        simp only [runRecognizer, hsteps, hrun, hrun']
        rfl

/-! ## Projections where nothing sets the flag -/

/-- **A host and the same host where nothing sets the flag** do the same when they are told the same, unless the flag
is found. -/
theorem Supervised.alongside_unflagged :
    Alongside (· = Abort.error .cancelled) fun s u : Supervised β => u = s.unflagged where
  mark := by
    rintro s _ rfl
    exact ⟨rfl, rfl⟩
  done := by
    rintro s _ rfl marker kind
    rw [done_unflagged]
    exact agreeing_map _ _
  error := by
    rintro s _ rfl marker message
    rw [error_unflagged]
    exact agreeing_map _ _
  rollback := by
    rintro s _ rfl marker
    rw [rollback_unflagged]
    exact agreeing_map _ _
  advance := by
    rintro s _ rfl
    rfl
  elements := by
    rintro s _ rfl
    rfl
  atEnd := by
    rintro s _ rfl
    rfl
  remaining := by
    rintro s _ rfl
    rfl
  cancelled := by
    rintro s _ rfl
    change s.cancelled = false ∨ (s.cancelled = true ∧ _)
    cases s.cancelled with
    | false => exact .inl rfl
    | true => exact .inr ⟨rfl, rfl⟩

/-- **All or nothing**: an action of a projection fails because the flag is found set, or it does what it does where
nothing sets the flag. -/
abbrev Projector.AllOrNothing (x : ProjectorM β α) : Prop :=
  Projector.Parallel .full Eq (· = Abort.error .cancelled) (fun s u => u = s.unflagged) x x

/-- The second half of a projection is all or nothing. -/
theorem Session.allOrNothing_replayUnder (snapshot : Nat) (root : Kind) (tree : ParseTree) :
    Projector.AllOrNothing (replayUnder (τ := τ) snapshot root tree : ProjectorM β τ) := by
  rw [replayUnder_eq]
  refine (parallel_layOut Supervised.alongside_unflagged pairedOff_eq snapshot root (.refl .full tree)).bind
    fun _ => Projector.parallel_get fun p q hpq => ?_
  rw [hpq.host]
  exact Projector.parallel_orBroken _

/-! ## Leaving the entry rule -/

namespace Projector

/-- Replay a tree up to where the region of its outermost rule is closed. -/
def replayInside (tree : ParseTree) : ProjectorM β Unit := do
  if let some (.rule r) := tree.root.bind (tree.nodes[·]?) then
    enterRule r
    replayStack tree (2 * tree.size) (r.children.toList.map .enter)

/-- **What is on top of a stack is replayed first.** -/
theorem replayStack_append {tree : ParseTree} {fuel : Nat} {top rest : List Visit}
    {p q : Projector β} (h : replayStack tree fuel (top ++ rest) p = .ok () q) :
    ∃ fuel' p', replayStack tree fuel top p = .ok () p' ∧
      replayStack tree fuel' rest p' = .ok () q := by
  induction fuel generalizing top p with
  | zero =>
      cases top with
      | nil => exact ⟨0, p, rfl, h⟩
      | cons v top => cases h
  | succ fuel ih =>
      -- whatever is on top is carried out, and then the rest of the top is replayed
      have hstep : ∀ {act : ProjectorM β Unit} {next : List Visit},
          (act >>= fun _ => replayStack tree fuel (next ++ rest)) p = .ok () q →
          ∃ fuel' p', (act >>= fun _ => replayStack tree fuel next) p = .ok () p' ∧
            replayStack tree fuel' rest p' = .ok () q := by
        intro act next h
        obtain ⟨_, p₁, hact, h⟩ := exists_of_bind_ok h
        obtain ⟨fuel', p', htop, hrest⟩ := ih h
        exact ⟨fuel', p', bind_ok hact htop, hrest⟩
      rcases top with _ | ⟨id | r, top⟩
      · exact ⟨fuel + 1, p, rfl, h⟩
      · -- a node is entered, if there is one
        simp only [List.cons_append, replayStack] at h ⊢
        generalize tree.nodes[id]? = node at h ⊢
        rcases node with _ | r | t | t
        · cases h
        · refine hstep ?_
          rw [List.append_assoc]
          exact h
        · exact hstep h
        · exact hstep h
      · exact hstep h

/-- A region that has been closed was closed with the flag unset. -/
theorem cancelled_of_exitRule {r : RuleNode} {p q : Projector β}
    (h : exitRule r p = .ok () q) : p.host.cancelled = false := by
  cases Ends.of_ok (exitRule_closes r p) h with
  | failed running => exact running
  | done running => exact running

/-- **A replay that succeeds** has come to the end of the outermost rule with the flag unset. -/
theorem replayInside_of_replay {tree : ParseTree} {id : Nat} {r : RuleNode} {p q : Projector β}
    (hroot : tree.root = some id) (hnode : tree.nodes[id]? = some (.rule r))
    (h : replay tree p = .ok () q) :
    ∃ p', replayInside tree p = .ok () p' ∧ p'.host.cancelled = false := by
  unfold replay at h
  rw [hroot] at h
  obtain ⟨_, p₁, hstack, -⟩ := exists_of_bind_ok h
  unfold replayStack at hstack
  rw [hnode] at hstack
  obtain ⟨_, p₂, henter, hstack⟩ := exists_of_bind_ok hstack
  -- below the children there is the exit of the rule alone
  obtain ⟨fuel, p', hinside, hexit⟩ := replayStack_append hstack
  have hreplay : replayInside tree p = .ok () p' := by
    unfold replayInside
    rw [hroot, Option.bind_some, hnode]
    exact bind_ok henter hinside
  cases fuel with
  | zero => cases hexit
  | succ fuel =>
      obtain ⟨_, p₃, hexit, -⟩ := exists_of_bind_ok hexit
      exact ⟨p', hreplay, cancelled_of_exitRule hexit⟩

end Projector

namespace Session

open Projector

/-- Carry out the second half of a projection up to where the entry rule is left. -/
def replayToExit (snapshot : Nat) (tree : ParseTree) : ProjectorM β Unit := do
  rewind snapshot
  let _ ← mark
  replayInside tree

/-- What has been carried out has come to where the entry rule is left, with the flag unset. -/
theorem replayToExit_of_ok {snapshot : Nat} {root : Kind} {tree : ParseTree} {id : Nat}
    {r : RuleNode} {p q : Projector β} {t : τ} (hroot : tree.root = some id)
    (hnode : tree.nodes[id]? = some (.rule r)) (h : replayUnder snapshot root tree p = .ok t q) :
    ∃ p', replayToExit snapshot tree p = .ok () p' ∧ p'.host.cancelled = false := by
  rw [replayUnder_eq] at h
  obtain ⟨_, _, h, -⟩ := exists_of_bind_ok h
  obtain ⟨_, p₁, hback, h⟩ := exists_of_bind_ok h
  obtain ⟨_, p₂, hmark, h⟩ := exists_of_bind_ok h
  obtain ⟨_, p₃, hreplay, -⟩ := exists_of_bind_ok h
  obtain ⟨p', hinside, hflag⟩ := replayInside_of_replay hroot hnode hreplay
  exact ⟨p', bind_ok hback (bind_ok hmark hinside), hflag⟩

/-- **Whether the flag is set when a projection is about to leave its entry rule**, if it comes that far.  As a flag
that is set stays set, it is so if and only if the flag has been set at any time before. -/
def flagAtExit? (s : Session) (g : Grammar) (entry : RuleIndex) (host : Supervised β) :
    Option Bool :=
  let (snapshot, host) := host.mark
  let r := s.runRecognizer g entry host
  match r.outcome with
  | .error _ => none
  | .ok (tree, errors) =>
    match replayToExit snapshot tree { host := r.host, errors, events := r.events.toArray } with
    | .ok () p => some p.host.cancelled
    | .error _ _ => none

/-- Calling off a projection, whatever its host, is all or nothing. -/
theorem project_unflagged {s : Session} {g : Grammar} {entry : RuleIndex} {root : Kind}
    {host : Supervised β}
    (hr : (g.entry (stepsFor (TreeBuilder.remaining host.mark.2.builder)) entry).Ordinary) :
    (s.project g entry root host).1.outcome = .error (.error .cancelled) ∨
      s.project g entry root host = s.project g entry root host.unflagged := by
  unfold project
  rw [Supervised.mark_unflagged]
  cases g.language.checkEntry entry with
  | error e => exact .inr rfl
  | ok u =>
      simp only
      rcases runRecognizer_unflagged (s := s) hr with hcancelled | hsame
      · refine .inl ?_
        rw [hcancelled]
      · -- recognition has done the same, and left hosts that differ in their flags alone
        rw [hsame]
        generalize s.runRecognizer g entry host.mark.2 = r
        obtain ⟨outcome, host', journal, events⟩ := r
        cases outcome with
        | error a => exact .inr rfl
        | ok a =>
            obtain ⟨tree, errors⟩ := a
            have hstart : Projector.Beside .full Eq (fun s u : Supervised β => u = s.unflagged)
                { host := host', errors, events := events.toArray }
                { host := host'.unflagged, errors, events := events.toArray } :=
              ⟨rfl, .refl _, rfl, .nil, rfl, rfl⟩
            simp only
            -- The replays go side by side as long as the flag is not found.
            rcases (allOrNothing_replayUnder (τ := τ) host.mark.1 root tree).together hstart with
              ⟨a, p, hreplay, rfl⟩ | ⟨t, _, p, q, hreplay, hreplay', rfl, hq⟩ |
                ⟨a, _, p, q, hreplay, hreplay', rfl, hq⟩
            · refine .inl ?_
              rw [hreplay]
            · simp only [hreplay, hreplay', hq.stats, hq.events_eq]
              exact .inr rfl
            · simp only [hreplay, hreplay', hq.events_eq]
              exact .inr rfl

/-- The counts of a session are those of its last projection that succeeded. -/
theorem stats_project {s : Session} {g : Grammar} {entry : RuleIndex} {root : Kind}
    {host : Supervised β} : (s.project g entry root host).2.stats = s.stats ∨
      ∃ tree, (s.project g entry root host).1.outcome = .ok tree := by
  have hends := s.projects (τ := τ) g entry root host
  generalize s.project (τ := τ) g entry root host = made at hends ⊢
  cases hends with
  | refused | givenUp | stopped => exact .inl rfl
  | finished => exact .inr ⟨_, rfl⟩

/-- **A projection that succeeds** has left its entry rule with the flag unset. -/
theorem flagAtExit?_of_ok [CursorBuilder β] {s : Session} {g : Grammar} {entry : RuleIndex}
    {root : Kind} {host : Supervised β} {t : τ}
    (hrule : ∀ tokens, (g.entry (stepsFor tokens) entry).OrdinaryRule)
    (hstart : host.cursor.position = 0) (hok : (s.project g entry root host).1.outcome = .ok t) :
    s.flagAtExit? g entry host = some false := by
  have hmarked : host.mark.2.cursor.position = 0 :=
    (congrArg HostCursor.position host.cursor_mark).trans hstart
  obtain ⟨-, tree, errors, p, houtcome, hreplay⟩ := exists_of_project_ok hok
  obtain ⟨q, r, vs, -, rfl, -, -, hwhole, -⟩ := recognized (hrule _) hmarked houtcome
  obtain ⟨p', hexit, hflag⟩ := replayToExit_of_ok hwhole.root hwhole.shows.1 hreplay
  unfold Recognition.start at hexit
  unfold flagAtExit?
  simp only [houtcome, hexit]
  exact congrArg some hflag

/-- **Calling off a projection is all or nothing.** At whatever moment the flag is set, the projection fails because of
it, or all that comes of it is what comes of it where the flag is never set; it does not succeed if the flag has been
set by the time that it leaves the entry rule; and the counts of the session change only if it succeeds. -/
theorem project_all_or_nothing [CursorBuilder β] {s : Session} {g : Grammar} {entry : RuleIndex}
    {root : Kind} {host : Supervised β}
    (hrule : ∀ tokens, (g.entry (stepsFor tokens) entry).OrdinaryRule)
    (hstart : host.cursor.position = 0) :
    ((s.project g entry root host).1.outcome = .error (.error .cancelled) ∨
      s.project g entry root host = s.project g entry root host.unflagged) ∧
    (∀ tree, (s.project g entry root host).1.outcome = .ok tree →
      s.flagAtExit? g entry host = some false) ∧
    ((s.project g entry root host).2.stats ≠ s.stats →
      ∃ tree, (s.project g entry root host).1.outcome = .ok tree) := by
  refine ⟨?_, ?_, ?_⟩
  · exact project_unflagged (hrule _).ordinary
  · intro tree hok
    exact flagAtExit?_of_ok hrule hstart hok
  · intro hchanged
    exact stats_project.resolve_left hchanged

end Session

/-- A source in the sample language, where a call of the builder sets the flag. -/
def Sample.hostUntil (call : Nat) : Supervised GreenBuilder :=
  { Sample.host "x = ; // \n f ( 1 ) ;" with cancelAt := some call }

/-- The 43rd call closes the last region inside the entry rule, and the 44th one that of the entry rule itself.  If
the first of them sets the flag, then it is found; if the other one does, it is not. -/
theorem Session.project_all_or_nothing_call :
    (({} : Session).project Sample.grammar Sample.scriptRule .file
      (Sample.hostUntil 43)).1.outcome = .error (.error .cancelled) ∧
    ∃ tree, (({} : Session).project Sample.grammar Sample.scriptRule .file
        (Sample.hostUntil 44)).1.outcome = .ok tree ∧
      ({} : Session).project Sample.grammar Sample.scriptRule .file (Sample.hostUntil 44) =
        ({} : Session).project Sample.grammar Sample.scriptRule .file (Sample.hostUntil 44).unflagged ∧
      ({} : Session).flagAtExit? Sample.grammar Sample.scriptRule (Sample.hostUntil 44) =
        some false := by
  have hall := fun call => @Session.project_all_or_nothing _ _ _ _ {} Sample.grammar Sample.scriptRule .file
    (Sample.hostUntil call) (fun tokens => Sample.ordinaryRule_stepsFor tokens _) rfl
  constructor
  · have hfound : ({} : Session).flagAtExit? Sample.grammar Sample.scriptRule
        (Sample.hostUntil 43) = some true := by decide +kernel
    have hunflagged : ∃ tree : HostTree, (({} : Session).project Sample.grammar Sample.scriptRule .file
        (Sample.hostUntil 43).unflagged).1.outcome = .ok tree := by decide +kernel
    refine (hall 43).1.resolve_right fun hsame => ?_
    -- then it would have succeeded, in spite of the flag
    rw [← hsame] at hunflagged
    obtain ⟨tree, hok⟩ := hunflagged
    cases hfound.symm.trans ((hall 43).2.1 tree hok)
  · have hgood : ∃ tree : HostTree, (({} : Session).project Sample.grammar Sample.scriptRule .file
        (Sample.hostUntil 44)).1.outcome = .ok tree := by decide +kernel
    obtain ⟨tree, hok⟩ := hgood
    refine ⟨tree, hok, (hall 44).1.resolve_left ?_, (hall 44).2.1 tree hok⟩
    rw [hok]
    exact nofun

end TreeProjection
