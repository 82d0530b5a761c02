import TreeProjection.Host.Feed
import TreeProjection.Projection.Basic
import TreeProjection.Projection.Trace
import TreeProjection.Recognition.Recognizer

/-! # Parsing onto a host

A `Session` runs grammars over hosts and remembers across runs what is asked of it.  The recognizer reads the host's tokens to the end of what it
wants, building its own parse tree; then the host is taken back to the start, and the tree is replayed
onto it.  Tokens that the entry rule did not reach end up directly under the root.

* `Session.recognize` — the first half alone.
* `Session.project` — both halves.
* `Session.projects` — the ways in which a projection ends. -/

namespace TreeProjection

/-- What holds for a series of runs, and what they leave behind. -/
structure Session where
  /-- How many rules may be active at once, if that is limited. -/
  recursionLimit : Option Nat := some 4096
  /-- Who is told of the steps of a run. -/
  tracer : Option Tracer := none
  /-- The counts of the last projection that succeeded. -/
  stats : ProjectionStats := {}

/-- What comes of running a recognizer over a host. -/
structure Recognition (β : Type) where
  /-- The parse tree and the errors, unless the run was given up. -/
  outcome : Except Abort (ParseTree × ErrorIndex)
  /-- The host afterwards. -/
  host : Supervised β
  /-- What was written down. -/
  journal : List Note
  /-- The steps of the run. -/
  events : List ProjectionEvent

/-- What comes of a projection. -/
structure Projection (τ : Type) where
  /-- The host's tree, unless the run was given up. -/
  outcome : Except Abort τ
  /-- The counts. -/
  stats : ProjectionStats
  /-- What was written down. -/
  journal : List Note
  /-- The steps of the run. -/
  events : List ProjectionEvent

/-- The rule of a name. -/
def Language.entryRule (l : Language) (name : String) : Except Error RuleIndex :=
  match l.ruleIndex? name with
  | some r => .ok r
  | none => .error (.unknownRule name)

/-- Refuse a rule that the language does not have. -/
def Language.checkEntry (l : Language) (entry : RuleIndex) : Except Error Unit :=
  if (l.ruleName? entry).isSome then .ok ()
  else .error (.unknownRule s!"#{entry.toNat}")

namespace Session

/-- Tell the tracer of the steps of a run. -/
def traced (s : Session) (events : List ProjectionEvent) : Session :=
  { s with tracer := s.tracer.map (·.tellAll events) }

variable {β τ : Type} [TreeBuilder β τ]

/-- The parser of a run, before it has read anything. -/
def parser (s : Session) (language : Language) (host : Supervised β) : Parser (Supervised β) where
  input := .ofSource host
  language := language
  strategy := .anchored
  recursionLimit := s.recursionLimit
  listeners := 1

/-- Run the recognizer of a rule over a host.  A recognition exception that leaves the outermost rule
ends the run like an answer. -/
def runRecognizer (s : Session) (g : Grammar) (entry : RuleIndex) (host : Supervised β) :
    Recognition β :=
  let steps := stepsFor (TreeBuilder.remaining host.builder)
  let finished (p : Parser (Supervised β)) : Recognition β :=
    let errors := ErrorIndex.ofReports p.reports
    { outcome := .ok (p.tree, errors), host := p.input.source, journal := p.journal.toList
      events := [.parseStart entry, .parseEnd errors.size] }
  match (g.entry steps entry).run (s.parser g.language host) with
  | .ok () p => finished p
  | .error (.recognition _) p => finished p
  | .error (.abort a) p =>
    { outcome := .error a, host := p.input.source, journal := p.journal.toList
      events := [.parseStart entry] }

/-- Run the recognizer of a rule over a host, and tell the tracer. -/
def recognize (s : Session) (g : Grammar) (entry : RuleIndex) (host : Supervised β) :
    Recognition β × Session :=
  match g.language.checkEntry entry with
  | .error e => (⟨.error (.error e), host, [], []⟩, s)
  | .ok () =>
    let r := s.runRecognizer g entry host
    (r, s.traced r.events)

/-- Pass the tokens that are left, and count them. -/
def drain : (fuel passed : Nat) → ProjectorM β Nat
  | 0, passed => pure passed
  | fuel + 1, passed => do
    if TreeBuilder.atEnd (← get).host.builder then return passed
    Projector.checkCancelled
    modify fun p => { p with host := p.host.advance }
    drain fuel (passed + 1)

/-- Take the host back to a mark, and replay a tree onto it under a root of a kind. -/
def replayUnder (snapshot : Nat) (root : Kind) (tree : ParseTree) : ProjectorM β τ := do
  let p ← get
  let host ← Projector.orBroken (p.host.rollback snapshot)
  set { p with host }
  let marker ← Projector.mark
  Projector.replay tree
  let drained ← drain (TreeBuilder.remaining (← get).host.builder) 0
  Projector.tell (.drain drained)
  Projector.count fun s => { s with drained }
  Projector.done marker root
  Projector.orBroken (TreeBuilder.finish (← get).host.builder)

/-- Parse a host's tokens from a rule, and build the host's tree under a root of a kind. -/
def project (s : Session) (g : Grammar) (entry : RuleIndex) (root : Kind) (host : Supervised β) :
    Projection τ × Session :=
  match g.language.checkEntry entry with
  | .error e => (⟨.error (.error e), s.stats, [], []⟩, s)
  | .ok () =>
    let (snapshot, host) := host.mark
    let r := s.runRecognizer g entry host
    match r.outcome with
    | .error a => (⟨.error a, s.stats, r.journal, r.events⟩, s.traced r.events)
    | .ok (tree, errors) =>
      let start : Projector β := { host := r.host, errors, events := r.events.toArray }
      match replayUnder (τ := τ) snapshot root tree start with
      | .ok t p =>
        let events := p.events.toList
        (⟨.ok t, p.stats, r.journal, events⟩, { s.traced events with stats := p.stats })
      | .error a p =>
        let events := p.events.toList
        (⟨.error a, s.stats, r.journal, events⟩, s.traced events)

end Session

/-- The state in which the replay of a recognition begins. -/
def Recognition.start {β : Type} (r : Recognition β) (errors : ErrorIndex) : Projector β :=
  { host := r.host, errors, events := r.events.toArray }

namespace Session

variable {β τ : Type} [TreeBuilder β τ]

/-- Once there is a parse tree, a projection is its replay. -/
theorem project_of_outcome {s : Session} {g : Grammar} {entry : RuleIndex} {root : Kind} {host : Supervised β}
    {t : ParseTree} {errors : ErrorIndex} (hrule : g.language.checkEntry entry = .ok ())
    (houtcome : (s.runRecognizer g entry host.mark.2).outcome = .ok (t, errors)) :
    s.project (τ := τ) g entry root host =
      match replayUnder (τ := τ) host.mark.1 root t ((s.runRecognizer g entry host.mark.2).start errors) with
      | .ok tree p => (⟨.ok tree, p.stats, (s.runRecognizer g entry host.mark.2).journal, p.events.toList⟩,
          { s.traced p.events.toList with stats := p.stats })
      | .error a p => (⟨.error a, s.stats, (s.runRecognizer g entry host.mark.2).journal, p.events.toList⟩,
          s.traced p.events.toList) := by
  unfold project
  rw [hrule]
  simp only [houtcome]
  rfl

/-- **How a projection ends** that has marked the host with `snapshot` and recognized `r`: what it hands over, and what
it leaves of its session. -/
inductive Projects (s : Session) (g : Grammar) (entry : RuleIndex) (root : Kind) (snapshot : Nat)
    (r : Recognition β) : Projection τ × Session → Prop where
  /-- The language does not have the rule, and nothing has been done. -/
  | refused {e : Error} (rule : g.language.checkEntry entry = .error e) :
    Projects s g entry root snapshot r (⟨.error (.error e), s.stats, [], []⟩, s)
  /-- The recognition has been given up. -/
  | givenUp {a : Abort} (rule : g.language.checkEntry entry = .ok ()) (outcome : r.outcome = .error a) :
    Projects s g entry root snapshot r (⟨.error a, s.stats, r.journal, r.events⟩, s.traced r.events)
  /-- The replay has been given up. -/
  | stopped {t : ParseTree} {errors : ErrorIndex} {a : Abort} {p : Projector β}
    (rule : g.language.checkEntry entry = .ok ()) (outcome : r.outcome = .ok (t, errors))
    (replay : replayUnder (τ := τ) snapshot root t (r.start errors) = .error a p) :
    Projects s g entry root snapshot r
      (⟨.error a, s.stats, r.journal, p.events.toList⟩, s.traced p.events.toList)
  /-- The host's tree is handed over. -/
  | finished {t : ParseTree} {errors : ErrorIndex} {tree : τ} {p : Projector β}
    (rule : g.language.checkEntry entry = .ok ()) (outcome : r.outcome = .ok (t, errors))
    (replay : replayUnder snapshot root t (r.start errors) = .ok tree p) :
    Projects s g entry root snapshot r (⟨.ok tree, p.stats, r.journal, p.events.toList⟩,
      { s.traced p.events.toList with stats := p.stats })

/-- **Every projection ends in one of these ways.** -/
theorem projects (s : Session) (g : Grammar) (entry : RuleIndex) (root : Kind) (host : Supervised β) :
    Projects (τ := τ) s g entry root host.mark.1 (s.runRecognizer g entry host.mark.2)
      (s.project g entry root host) := by
  unfold project
  cases hrule : g.language.checkEntry entry with
  | error e => exact .refused hrule
  | ok u =>
      simp only
      cases houtcome : (s.runRecognizer g entry host.mark.2).outcome with
      | error a => exact .givenUp hrule houtcome
      | ok made =>
          simp only
          split
          · exact .finished hrule houtcome ‹_›
          · exact .stopped hrule houtcome ‹_›

end Session

end TreeProjection
