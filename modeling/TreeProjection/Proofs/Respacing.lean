import TreeProjection.Proofs.Attending
import TreeProjection.Proofs.Pairing
import TreeProjection.Sample.Parse

/-! # Trivia make no difference

Two sources whose tokens are the same, trivia apart, are parsed alike: all that a recognizer sees of a source are the
types and texts of these tokens, and all that a projection sees are the offsets of errors, which are paired off
between the sources.  Only the places of tokens are different.

* `HostText.lexemes` — the tokens of a source without the trivia.
* `GreenBuilder.Respaced`, `Supervised.Respaced` — builders over such sources that have been told the same.
* `Supervised.abreast_respaced`, `Supervised.alongside_respaced` — they give the same tokens and do the same.
* `Session.RecognizedBoth` — what recognitions over such sources have done.
* `Session.Recognized.laidOut` — what is laid out over a source.
* `Session.project_respaced` — nothing comes of the trivia but the places of tokens. -/

namespace TreeProjection

open ParseNode (View)

/-! ## Sources -/

/-- **The tokens of a source without the trivia**, each with its kind and text. -/
def HostText.lexemes (h : HostText) (l : Language) : List HostToken :=
  (h.significant l).map PlacedToken.toHostToken

namespace HostCursor

/-- **Cursors at the same token**, of tokens of the same kinds and texts. -/
structure Respaced (c c' : HostCursor) : Prop where
  /-- The kinds and texts are the same. -/
  tokens : c.tokens.map PlacedToken.toHostToken = c'.tokens.map PlacedToken.toHostToken
  /-- As many tokens have been passed. -/
  position : c.position = c'.position

namespace Respaced

variable {c c' : HostCursor} (h : Respaced c c')

include h

/-- There are as many tokens. -/
theorem size : c.tokens.size = c'.tokens.size := by
  have := congrArg Array.size h.tokens
  rwa [Array.size_map, Array.size_map] at this

/-- The current tokens have the same kind and text, if there is one. -/
theorem current? : (c.current? = none ∧ c'.current? = none) ∨
    ∃ t t', c.current? = some t ∧ c'.current? = some t' ∧ t.toHostToken = t'.toHostToken := by
  have hcurrent : c.current?.map PlacedToken.toHostToken = c'.current?.map PlacedToken.toHostToken := by
    unfold HostCursor.current?
    rw [← Array.getElem?_map, h.tokens, Array.getElem?_map, h.position]
  cases hc : c.current? with
  | none =>
      rw [hc] at hcurrent
      exact .inl ⟨rfl, Option.map_eq_none_iff.mp hcurrent.symm⟩
  | some t =>
      rw [hc] at hcurrent
      obtain ⟨t', hc', ht⟩ := Option.map_eq_some_iff.mp hcurrent.symm
      exact .inr ⟨t, t', rfl, hc', ht.symm⟩

/-- The cursors are moved to the same place. -/
theorem moved (i : Nat) : Respaced { c with position := i } { c' with position := i } := ⟨h.tokens, rfl⟩

/-- Both move on. -/
theorem next : c.next.Respaced c'.next := ⟨h.tokens, congrArg (· + 1) h.position⟩

/-- Both are at the end, or neither is. -/
theorem atEnd : c.atEnd = c'.atEnd := by
  unfold HostCursor.atEnd
  rw [h.size, h.position]

/-- As many tokens are still to come. -/
theorem remaining : c.remaining = c'.remaining := by
  unfold HostCursor.remaining
  rw [h.size, h.position]

end Respaced

/-- Cursors at the start of sources with the same tokens. -/
theorem respaced_ofText {h h' : HostText} {l : Language} (hsame : h.lexemes l = h'.lexemes l) :
    (ofText h l).Respaced (ofText h' l) where
  tokens := by
    unfold HostText.lexemes at hsame
    simp only [ofText, List.map_toArray, hsame]
  position := rfl

/-- **The offsets in such sources are paired off**, if no token is empty. -/
theorem pairedOff_ofText {h h' : HostText} {l : Language} (hsame : h.lexemes l = h'.lexemes l)
    (htexts : ∀ t ∈ h.lexemes l, 0 < t.text.utf8ByteSize) (e : ElementTypes) :
    PairedOff (((ofText h l).tape e).Paired ((ofText h' l).tape e)) := by
  have hdistinct : ∀ {k : HostText}, (∀ t ∈ k.lexemes l, 0 < t.text.utf8ByteSize) →
      ((ofText k l).tape e).Distinct :=
    fun hk => distinct_tape e fun t ht => hk _ (List.mem_map_of_mem ht)
  refine Tape.pairedOff (hdistinct htexts) (hdistinct ?_) ?_
  · rwa [← hsame]
  · rw [size_tape, size_tape, (respaced_ofText hsame).size]

end HostCursor

namespace Outline

variable {tokens tokens' : List PlacedToken}

mutual

/-- The tree of an outline without the places depends on the kinds and texts of the tokens alone. -/
theorem greens_image (h : tokens.map PlacedToken.toHostToken = tokens'.map PlacedToken.toHostToken) :
    ∀ o : Outline, PlacedTree.greens (image tokens o) = PlacedTree.greens (image tokens' o)
  | .token t => by
      have hget : ∀ i : Nat, tokens[i]?.map PlacedToken.toHostToken = tokens'[i]?.map PlacedToken.toHostToken := by
        intro i
        rw [← List.getElem?_map, h, List.getElem?_map]
      have hread : ∀ ts : List PlacedToken, (t.index.bind (ts[·]?)).map PlacedToken.toHostToken =
          t.index.bind fun i => ts[i]?.map PlacedToken.toHostToken := fun ts => Option.map_bind
      have hsame : (t.index.bind (tokens[·]?)).map PlacedToken.toHostToken =
          (t.index.bind (tokens'[·]?)).map PlacedToken.toHostToken := by
        rw [hread, hread, funext hget]
      have hgreens : ∀ o : Option PlacedToken, PlacedTree.greens (o.toList.map .token) =
          (o.map PlacedToken.toHostToken).toList.map .token := by
        intro o
        cases o <;> rfl
      rw [image, image, hgreens, hgreens, hsame]
  | .node kind parts => congrArg (fun ts => [GreenTree.node kind ts]) (greens_images h parts)
  | .error _ parts => congrArg (fun ts => [GreenTree.node .error ts]) (greens_images h parts)

/-- So do the trees of several outlines. -/
theorem greens_images (h : tokens.map PlacedToken.toHostToken = tokens'.map PlacedToken.toHostToken) :
    ∀ os : List Outline, PlacedTree.greens (images tokens os) = PlacedTree.greens (images tokens' os)
  | [] => rfl
  | o :: rest => by
      rw [images, images, PlacedTree.greens_append, PlacedTree.greens_append, greens_image h o,
        greens_images h rest]

end

end Outline

/-- Host tokens of one kind and text are read alike. -/
theorem ElementTypes.sketch_read (e : ElementTypes) {t t' : PlacedToken} (h : t.toHostToken = t'.toHostToken) :
    (e.read t).sketch .unplaced = (e.read t').sketch .unplaced := by
  unfold read
  rw [h]
  rfl

/-! ## Builders -/

namespace GreenBuilder

/-- An entry of a record without the place of its token. -/
def Event.unplaced : Event → Event
  | token _ => token 0
  | e => e

/-- **Builders over sources that differ in their trivia**, which have been told the same. -/
structure Respaced (b b' : GreenBuilder) : Prop where
  /-- The readers stand at the same token. -/
  cursor : b.cursor.Respaced b'.cursor
  /-- The records are the same but for the places of tokens. -/
  events : b.events.map Event.unplaced = b'.events.map Event.unplaced
  /-- The same regions are open. -/
  openMarkers : b.openMarkers = b'.openMarkers

/-- How a region was closed is entered alike. -/
theorem map_unplaced_recordClosing (events : Array Event) (marker : Nat) (closing : Closing) :
    (recordClosing events marker closing).map Event.unplaced =
      recordClosing (events.map Event.unplaced) marker closing := by
  unfold recordClosing
  refine Array.ext_getElem? fun i => ?_
  simp only [Array.getElem?_map, Array.getElem?_modify]
  by_cases hi : marker = i
  · simp only [hi, if_true, Option.map_map]
    congr 1
    funext e
    cases e <;> rfl
  · simp only [hi, if_false]

namespace Respaced

variable {b b' : GreenBuilder} (h : Respaced b b')

include h

/-- The records are of the same length. -/
theorem size : b.events.size = b'.events.size := by
  have := congrArg Array.size h.events
  rwa [Array.size_map, Array.size_map] at this

/-- Passing the current token. -/
theorem advance : b.advance.Respaced b'.advance := by
  unfold GreenBuilder.advance
  rcases h.cursor.current? with ⟨hc, hc'⟩ | ⟨t, t', hc, hc', -⟩
  · rw [hc, hc']
    exact h
  · rw [hc, hc']
    refine ⟨h.cursor.next, ?_, h.openMarkers⟩
    rw [Array.map_push, Array.map_push, h.events]
    rfl

/-- Opening a region. -/
theorem mark : b.mark.1 = b'.mark.1 ∧ b.mark.2.Respaced b'.mark.2 := by
  refine ⟨h.size, h.cursor, ?_, ?_⟩
  · have hposition : b.position = b'.position := h.cursor.position
    simp only [GreenBuilder.mark, Array.map_push, h.events, hposition]
  · simp only [GreenBuilder.mark, h.openMarkers, h.size]

/-- Closing a region. -/
theorem close (marker : Nat) (closing : Closing) :
    Agreeing Respaced (b.close marker closing) (b'.close marker closing) := by
  unfold GreenBuilder.close
  rw [h.openMarkers]
  split
  · split
    · refine ⟨h.cursor, ?_, rfl⟩
      simp only [Array.map_push, map_unplaced_recordClosing, h.events]
    · rfl
  · rfl

/-- Dropping a region. -/
theorem rollback (marker : Nat) : Agreeing Respaced (b.rollback marker) (b'.rollback marker) := by
  have hevent : b.events[marker]?.map Event.unplaced = b'.events[marker]?.map Event.unplaced := by
    rw [← Array.getElem?_map, h.events, Array.getElem?_map]
  have hdropped : ∀ position, Respaced
      { b with
        events := b.events.take marker
        openMarkers := (b.openMarkers.dropWhile (· != marker)).tail
        cursor := { b.cursor with position } }
      { b' with
        events := b'.events.take marker
        openMarkers := (b'.openMarkers.dropWhile (· != marker)).tail
        cursor := { b'.cursor with position } } := by
    refine fun position => ⟨h.cursor.moved position, ?_, ?_⟩
    · simp only [Array.take_eq_extract, Array.map_extract, h.events]
    · simp only [h.openMarkers]
  unfold GreenBuilder.rollback
  rw [h.openMarkers] at hdropped ⊢
  split
  · -- the region was opened at the same token
    cases he : b.events[marker]? with
    | none =>
        rw [he] at hevent
        rw [Option.map_eq_none_iff.mp hevent.symm]
        rfl
    | some e =>
        rw [he] at hevent
        obtain ⟨e', he', hsame⟩ := Option.map_eq_some_iff.mp hevent.symm
        rw [he']
        cases e <;> cases e' <;> cases hsame
        · exact hdropped _
        · rfl
        · rfl
  · rfl

end Respaced

end GreenBuilder

/-! ## Hosts -/

namespace Supervised

/-- The same host over a source, before it has been told anything. -/
def overText (s : Supervised GreenBuilder) (h : HostText) (l : Language) : Supervised GreenBuilder :=
  { s with builder := .ofText h l }

/-- **Hosts over sources that differ in their trivia**, which have been told the same. -/
structure Respaced (s t : Supervised GreenBuilder) : Prop where
  /-- The builders have been told the same. -/
  builder : s.builder.Respaced t.builder
  /-- All else is the same. -/
  same : t = { s with builder := t.builder }

namespace Respaced

variable {s t : Supervised GreenBuilder} (h : Respaced s t)

include h

/-- The kinds are the same. -/
theorem elements : s.elements = t.elements := (congrArg Supervised.elements h.same).symm

/-- The flags are the same. -/
theorem cancelled : s.cancelled = t.cancelled := (congrArg Supervised.cancelled h.same).symm

/-- Builders to which something has been done by a call that counts. -/
theorem counted {b b' : GreenBuilder} (hb : b.Respaced b') : (s.counted b).Respaced (t.counted b') where
  builder := hb
  same := by
    rw [h.same]
    rfl

/-- What a builder may refuse, by a call that counts. -/
theorem agreeing_counted {o o' : Except Violation GreenBuilder} (ho : Agreeing GreenBuilder.Respaced o o') :
    Agreeing Respaced (do return s.counted (← o)) (do return t.counted (← o')) := by
  match o, o', ho with
  | .ok b, .ok b', hb => exact h.counted hb
  | .error v, .error _, rfl => rfl

end Respaced

/-- A host over sources that have the same tokens without the trivia. -/
theorem respaced_overText (s : Supervised GreenBuilder) {h h' : HostText} {l : Language}
    (hsame : h.lexemes l = h'.lexemes l) : (s.overText h l).Respaced (s.overText h' l) where
  builder := ⟨HostCursor.respaced_ofText hsame, rfl, rfl⟩
  same := rfl

/-- Hosts over sources that differ in their trivia give the same tokens, but for their places. -/
theorem abreast_respaced : Abreast .unplaced (fun _ => False) (fun _ => False) Respaced where
  stays _ h := h
  pull s t h := by
    refine .inr ?_
    rw [pull_eq, pull_eq, h.cancelled]
    by_cases hcancelled : t.cancelled = true
    · rw [if_pos hcancelled, if_pos hcancelled]
      exact ⟨rfl, h⟩
    · rw [if_neg hcancelled, if_neg hcancelled]
      have hcursor : s.cursor.Respaced t.cursor := h.builder.cursor
      rcases hcursor.current? with ⟨hs, ht⟩ | ⟨u, u', hs, ht, hsame⟩
      · rw [hs, ht]
        refine ⟨rfl, h.builder, ?_⟩
        rw [h.same]
        rfl
      · rw [hs, ht, h.elements]
        exact ⟨congrArg Except.ok (t.elements.sketch_read hsame), h.counted h.builder.advance⟩
  cancelled s t h := .inl h.cancelled
  bound s t h := h.builder.cursor.remaining
  fails := nofun

/-- **Hosts over sources that differ in their trivia** do the same when they are told the same. -/
theorem alongside_respaced : Alongside (fun _ => False) Respaced where
  mark h := ⟨h.builder.mark.1, h.counted h.builder.mark.2⟩
  done h marker kind := h.agreeing_counted (h.builder.close marker (.node kind))
  error h marker message := h.agreeing_counted (h.builder.close marker (.error message))
  rollback {s t} h marker := by
    have hdropped := h.builder.rollback marker
    change Agreeing Respaced (do return { s with builder := ← s.builder.rollback marker })
      (do return { t with builder := ← t.builder.rollback marker })
    match s.builder.rollback marker, t.builder.rollback marker, hdropped with
    | .ok b, .ok b', hb =>
        refine ⟨hb, ?_⟩
        rw [h.same]
    | .error v, .error _, rfl => rfl
  advance h := h.counted h.builder.advance
  elements h := h.elements
  atEnd h := h.builder.cursor.atEnd
  remaining h := h.builder.cursor.remaining
  cancelled h := .inl h.cancelled

end Supervised

/-! ## Recognition -/

/-- **A recognition without the places of tokens**: the parse tree and the errors, unless the run was given up. -/
def Recognition.unplaced {β : Type} (r : Recognition β) : Except Abort (ParseTree × Array SyntaxError) :=
  r.outcome.map fun made => (made.1.sketch .unplaced, made.2.errors.map (·.sketch .unplaced))

/-- **A projection without the trivia**: the tree and the messages of its error elements, unless the run was given up. -/
def Projection.pruned (p : Projection HostTree) (l : Language) : Except Abort (List GreenTree × List String) :=
  p.outcome.map fun tree => (tree.green.prune l, tree.errors.map ErrorElement.message)

namespace Session

variable {s : Session} {g : Grammar} {entry : RuleIndex} {host host' : Supervised GreenBuilder}

/-- What a recognition has made is its outcome. -/
theorem Recognized.outcome {β τ : Type} [TreeBuilder β τ] [CursorBuilder β] {host : Supervised β} {t : ParseTree}
    {errors : ErrorIndex} {q : Parser (Supervised β)} {r : RuleNode} {vs : List View}
    (h : s.Recognized g entry host t errors q r vs) :
    (s.runRecognizer g entry host).outcome = .ok (t, errors) := by
  simp only [runRecognizer, h.run, h.tree, h.errors]

/-- The steps of a recognition. -/
theorem Recognized.events {t : ParseTree} {errors : ErrorIndex} {q : Parser (Supervised GreenBuilder)}
    {r : RuleNode} {vs : List View} (h : s.Recognized g entry host t errors q r vs) :
    (s.runRecognizer g entry host).events = [.parseStart entry, .parseEnd errors.size] := by
  simp only [runRecognizer, h.run, h.errors]

/-- **What two recognitions have done** on hosts over sources that differ in their trivia. -/
structure RecognizedBoth (s : Session) (g : Grammar) (entry : RuleIndex) (host host' : Supervised GreenBuilder)
    (q q' : Parser (Supervised GreenBuilder)) (r r' : RuleNode) (vs vs' : List View) : Prop where
  /-- The hosts have been told the same. -/
  hosts : host.Respaced host'
  /-- The first has made a parse tree. -/
  first : s.Recognized g entry host q.tree (.ofReports q.reports) q r vs
  /-- So has the second. -/
  second : s.Recognized g entry host' q'.tree (.ofReports q'.reports) q' r' vs'
  /-- They differ in the places of tokens only. -/
  beside : q.Beside .unplaced Eq Supervised.Respaced q'

/-- **Two recognitions on hosts over sources that differ in their trivia** are given up for the same reason, or they do
the same. -/
theorem runRecognizer_respaced (hhosts : host.Respaced host') (hstart : host.cursor.position = 0)
    (hrule : (g.entry (stepsFor (TreeBuilder.remaining host.builder)) entry).OrdinaryRule)
    (hheeds : (g.entry (stepsFor (TreeBuilder.remaining host.builder)) entry).Heeds .unplaced) :
    (∃ a, (s.runRecognizer g entry host).outcome = .error a ∧
      (s.runRecognizer g entry host').outcome = .error a) ∨
    ∃ q q' r r' vs vs', s.RecognizedBoth g entry host host' q q' r r' vs vs' := by
  have : Nonempty (Supervised GreenBuilder) := ⟨host⟩
  have hparsers : (s.parser g.language host).Beside .unplaced Eq Supervised.Respaced
      (s.parser g.language host') := ⟨hhosts, rfl, rfl⟩
  have hsteps : TreeBuilder.remaining host'.builder = TreeBuilder.remaining host.builder :=
    hhosts.builder.cursor.remaining.symm
  rcases (hrule.ordinary.parallel_of_heeds hheeds Supervised.abreast_respaced).together hparsers with
    ⟨i, p, -, hlost⟩ | ⟨_, _, q, q', hrun, hrun', -, hq⟩ | ⟨i, i', q, q', hrun, hrun', hi, -⟩
  · rcases i with _ | _ | _ <;> exact hlost.elim
  · refine .inr ⟨q, q', ?_⟩
    -- both outcomes are those of runs that have come to these ends
    have houtcome : (s.runRecognizer g entry host).outcome = .ok (q.tree, .ofReports q.reports) := by
      simp only [runRecognizer, hrun]
    have houtcome' : (s.runRecognizer g entry host').outcome = .ok (q'.tree, .ofReports q'.reports) := by
      simp only [runRecognizer, hsteps, hrun']
    have hstart' : host'.cursor.position = 0 := hhosts.builder.cursor.position.symm.trans hstart
    obtain ⟨q₁, r, vs, hfirst⟩ := recognized hrule hstart houtcome
    obtain ⟨q₂, r', vs', hsecond⟩ := recognized (hsteps ▸ hrule) hstart' houtcome'
    have hrun₂ := hsecond.run
    rw [hsteps] at hrun₂
    obtain rfl : q = q₁ := (EStateM.Result.ok.inj (hrun.symm.trans hfirst.run)).2
    obtain rfl : q' = q₂ := (EStateM.Result.ok.inj (hrun'.symm.trans hrun₂)).2
    exact ⟨r, r', vs, vs', hhosts, hfirst, hsecond, hq⟩
  · have hend := Ends.of_error (hrule.runs (s.parser_fresh g.language host hstart)) hrun
    cases i with
    | recognition e => cases hend.1
    | abort a =>
        cases i' with
        | recognition e' => cases hi
        | abort a' =>
            obtain rfl := Interrupt.abort.inj hi
            refine .inl ⟨a, ?_, ?_⟩
            · simp only [runRecognizer, hrun]
            · simp only [runRecognizer, hsteps, hrun']

namespace RecognizedBoth

variable {q q' : Parser (Supervised GreenBuilder)} {r r' : RuleNode} {vs vs' : List View}
  (h : s.RecognizedBoth g entry host host' q q' r r' vs vs')

include h

/-- The parse trees are the same but for the places of tokens. -/
theorem tree_sketch : q.tree.sketch .unplaced = q'.tree.sketch .unplaced :=
  congrArg Parser.tree h.beside.sketch

/-- Both parses end at the same token. -/
theorem index : q.index = q'.index := Parser.congr_sketch Parser.index (fun _ => rfl) h.beside.sketch

/-- The reports are the same but for the places of tokens. -/
theorem reports_sketch : q.reports.map (·.sketch .unplaced) = q'.reports.map (·.sketch .unplaced) := by
  rw [← Parser.reports_sketch, ← Parser.reports_sketch, h.beside.sketch]

/-- So are the errors. -/
theorem errors_sketch : (ErrorIndex.ofReports q.reports).errors.map (·.sketch .unplaced) =
    (ErrorIndex.ofReports q'.reports).errors.map (·.sketch .unplaced) := by
  have hcollected : (ErrorCollector.ofReports q.reports).sketch .unplaced =
      (ErrorCollector.ofReports q'.reports).sketch .unplaced := by
    rw [ErrorCollector.sketch_ofReports, ErrorCollector.sketch_ofReports, h.reports_sketch]
  exact congrArg ErrorCollector.errors hcollected

/-- The errors are found at paired offsets. -/
theorem errors_beside
    (hpair : PairedOff ((host.cursor.tape host.elements).Paired (host'.cursor.tape host'.elements))) :
    (ErrorIndex.ofReports q.reports).Beside
      ((host.cursor.tape host.elements).Paired (host'.cursor.tape host'.elements)) (.ofReports q'.reports) :=
  ErrorIndex.beside_ofReports hpair h.reports_sketch h.first.anchored h.second.anchored

/-- **What is built of the parse trees** is the same but for the places of tokens. -/
theorem sketches_ofView
    (hpair : PairedOff ((host.cursor.tape host.elements).Paired (host'.cursor.tape host'.elements))) :
    Outline.sketches .unplaced (Outline.ofView host.elements (.ofReports q.reports) [] (.rule r vs)).1 =
      Outline.sketches .unplaced (Outline.ofView host'.elements (.ofReports q'.reports) [] (.rule r' vs')).1 := by
  have htree := h.first.whole.beside h.second.whole h.tree_sketch
  rw [← h.hosts.elements]
  exact (Outline.beside_ofView hpair (h.errors_beside hpair) htree host.elements h.first.whole.shows
    h.second.whole.shows .nil).1.sketches

/-- **The replays of two recognitions begin side by side.** -/
theorem start
    (hpair : PairedOff ((host.cursor.tape host.elements).Paired (host'.cursor.tape host'.elements))) :
    Projector.Beside .unplaced ((host.cursor.tape host.elements).Paired (host'.cursor.tape host'.elements))
      Supervised.Respaced ((s.runRecognizer g entry host).start (.ofReports q.reports))
      ((s.runRecognizer g entry host').start (.ofReports q'.reports)) where
  host := by
    change Supervised.Respaced (s.runRecognizer g entry host).host (s.runRecognizer g entry host').host
    rw [h.first.left, h.second.left]
    exact h.beside.source
  errors := h.errors_beside hpair
  markers := rfl
  spent := .nil
  stats := rfl
  events := by
    have hcount : (ErrorIndex.ofReports q.reports).size = (ErrorIndex.ofReports q'.reports).size := by
      have := congrArg Array.size h.errors_sketch
      rwa [Array.size_map, Array.size_map] at this
    simp only [Recognition.start, h.first.events, h.second.events, hcount]

/-- **The second halves of two projections** fail alike, or both go through and have counted the same. -/
theorem layOut
    (hpair : PairedOff ((host.cursor.tape host.elements).Paired (host'.cursor.tape host'.elements)))
    (snapshot : Nat) (root : Kind) :
    (∃ a p p', Session.layOut snapshot root q.tree ((s.runRecognizer g entry host).start (.ofReports q.reports)) =
        .error a p ∧
      Session.layOut snapshot root q'.tree ((s.runRecognizer g entry host').start (.ofReports q'.reports)) =
        .error a p') ∨
    ∃ p p', Session.layOut snapshot root q.tree ((s.runRecognizer g entry host).start (.ofReports q.reports)) =
        .ok () p ∧
      Session.layOut snapshot root q'.tree ((s.runRecognizer g entry host').start (.ofReports q'.reports)) =
        .ok () p' ∧ p.stats = p'.stats := by
  have htree := h.first.whole.beside h.second.whole h.tree_sketch
  rcases (parallel_layOut Supervised.alongside_respaced hpair snapshot root htree).together (h.start hpair) with
    ⟨_, _, -, hlost⟩ | ⟨_, _, p, p', hlaid, hlaid', -, hp⟩ | ⟨a, _, p, p', hlaid, hlaid', rfl, -⟩
  · exact hlost.elim
  · exact .inr ⟨p, p', hlaid, hlaid', hp.stats⟩
  · exact .inl ⟨a, p, p', hlaid, hlaid'⟩

end RecognizedBoth

/-! ## Projection -/

/-- What has been laid out is handed over. -/
theorem project_of_layOut {β τ : Type} [TreeBuilder β τ] {host : Supervised β} {root : Kind} {t : ParseTree}
    {errors : ErrorIndex} {p : Projector β} {tree : τ} (hvalid : g.language.checkEntry entry = .ok ())
    (houtcome : (s.runRecognizer g entry host.mark.2).outcome = .ok (t, errors))
    (hlaid : layOut host.mark.1 root t ((s.runRecognizer g entry host.mark.2).start errors) = .ok () p)
    (hfinish : TreeBuilder.finish p.host.builder = .ok tree) :
    (s.project g entry root host).1.outcome = .ok tree ∧ (s.project g entry root host).1.stats = p.stats ∧
      (s.project g entry root host).2.stats = p.stats := by
  have hreplay : replayUnder host.mark.1 root t ((s.runRecognizer g entry host.mark.2).start errors) =
      .ok tree p := by
    rw [replayUnder_eq]
    refine bind_ok hlaid ?_
    change Projector.orBroken (TreeBuilder.finish p.host.builder) p = _
    rw [hfinish]
    rfl
  rw [project_of_outcome hvalid houtcome, hreplay]
  exact ⟨rfl, rfl, rfl⟩

/-- What cannot be laid out is given up. -/
theorem project_of_layOut_error {β τ : Type} [TreeBuilder β τ] {host : Supervised β} {root : Kind} {t : ParseTree}
    {errors : ErrorIndex} {p : Projector β} {a : Abort} (hvalid : g.language.checkEntry entry = .ok ())
    (houtcome : (s.runRecognizer g entry host.mark.2).outcome = .ok (t, errors))
    (hlaid : layOut host.mark.1 root t ((s.runRecognizer g entry host.mark.2).start errors) = .error a p) :
    (s.project (τ := τ) g entry root host).1.outcome = .error a ∧
      (s.project (τ := τ) g entry root host).1.stats = s.stats ∧
      (s.project (τ := τ) g entry root host).2.stats = s.stats := by
  have hreplay : replayUnder (τ := τ) host.mark.1 root t ((s.runRecognizer g entry host.mark.2).start errors) =
      .error a p := by
    rw [replayUnder_eq]
    exact bind_error _ hlaid
  rw [project_of_outcome hvalid houtcome, hreplay]
  exact ⟨rfl, rfl, rfl⟩

/-- **What has been laid out over a source**: the outline of the parse tree and what is left become a tree, which
without the trivia is their image, with their messages. -/
theorem Recognized.laidOut {h : HostText} {host : Supervised GreenBuilder} {root : Kind}
    {q : Parser (Supervised GreenBuilder)} {r : RuleNode} {vs : List View} {os : List Outline}
    {p : Projector GreenBuilder}
    (hrecognized : s.Recognized g entry host.mark.2 q.tree (.ofReports q.reports) q r vs)
    (hbuilder : host.builder = .ofText h g.language)
    (hos : os = (Outline.ofView host.elements (.ofReports q.reports) [] (.rule r vs)).1 ++
      (((HostCursor.ofText h g.language).tape host.elements).between q.index
        (h.significant g.language).length).map .token)
    (hlaid : layOut host.mark.1 root q.tree
      ((s.runRecognizer g entry host.mark.2).start (.ofReports q.reports)) = .ok () p) :
    ∃ tree : HostTree, TreeBuilder.finish p.host.builder = .ok tree ∧
      tree.green.prune g.language =
        [.node root (PlacedTree.greens (Outline.images (h.significant g.language) os))] ∧
      tree.errors.map ErrorElement.message = Outline.messagesOf os := by
  have hcursor : host.cursor = .ofText h g.language := congrArg CursorBuilder.cursor hbuilder
  have hwhole := hrecognized.whole
  rw [host.cursor_mark, hcursor] at hwhole
  change q.Whole ((HostCursor.ofText h g.language).tape host.elements) r vs at hwhole
  obtain ⟨hin, hlen⟩ := hwhole.inOrder host.elements _ hos
  -- in the beginning the host has only passed tokens, and nothing has been placed
  generalize hstart : (s.runRecognizer g entry host.mark.2).start (.ofReports q.reports) = start at hlaid
  have hhost : start.host = q.input.source := by
    rw [← hstart]
    exact hrecognized.left
  have herrors : start.errors = .ofReports q.reports := by
    rw [← hstart]
    rfl
  have hspent : start.spent = [] := by
    rw [← hstart]
    rfl
  have helements : start.host.elements = host.elements := by
    rw [hhost]
    exact hrecognized.passed.elements
  have hback : TreeBuilder.rollback start.host.builder host.mark.1 = .ok (GreenBuilder.ofText h g.language) := by
    rw [hhost, hrecognized.passed.rollback, hbuilder]
  have hall := hlen
  rw [hos, Outline.tokensOf_append, Outline.tokensOf_map_token, List.length_append, ← helements, ← herrors] at hall
  have hbuild := (answers_layOut_ofText root hwhole.root hwhole.size hwhole.shows hspent hback hall).of_ok hlaid
  rw [helements, herrors, ← hos] at hbuild
  obtain ⟨tree, hfinish, -⟩ := GreenBuilder.finish_of_build hbuild hlen
  obtain ⟨-, hpruned, hmessages⟩ := GreenBuilder.finish_build hbuild hfinish hin hlen
  refine ⟨tree, hfinish, ?_, hmessages⟩
  rw [tree.prune_green, hpruned]
  rfl

/-- **What two recognitions over sources become** is the same but for the trivia. -/
theorem RecognizedBoth.built {h h' : HostText} {host : Supervised GreenBuilder}
    {q q' : Parser (Supervised GreenBuilder)} {r r' : RuleNode} {vs vs' : List View} {os os' : List Outline}
    (hboth : s.RecognizedBoth g entry (host.overText h g.language).mark.2 (host.overText h' g.language).mark.2
      q q' r r' vs vs')
    (hpair : PairedOff (((HostCursor.ofText h g.language).tape host.elements).Paired
      ((HostCursor.ofText h' g.language).tape host.elements)))
    (hsame : h.lexemes g.language = h'.lexemes g.language)
    (hos : os = (Outline.ofView host.elements (.ofReports q.reports) [] (.rule r vs)).1 ++
      (((HostCursor.ofText h g.language).tape host.elements).between q.index
        (h.significant g.language).length).map .token)
    (hos' : os' = (Outline.ofView host.elements (.ofReports q'.reports) [] (.rule r' vs')).1 ++
      (((HostCursor.ofText h' g.language).tape host.elements).between q'.index
        (h'.significant g.language).length).map .token) :
    PlacedTree.greens (Outline.images (h.significant g.language) os) =
        PlacedTree.greens (Outline.images (h'.significant g.language) os') ∧
      Outline.messagesOf os = Outline.messagesOf os' := by
  -- The outlines are the same but for where texts come from, and the rest is passed token by token.
  have hsketches := hboth.sketches_ofView hpair
  change Outline.sketches .unplaced (Outline.ofView host.elements (.ofReports q.reports) [] (.rule r vs)).1 =
    Outline.sketches .unplaced (Outline.ofView host.elements (.ofReports q'.reports) [] (.rule r' vs')).1
    at hsketches
  have hreached : q.index ≤ (h.significant g.language).length := by
    have := hboth.first.whole.standing.le_size
    rwa [HostCursor.size_tape] at this
  have hreached' : q'.index ≤ (h'.significant g.language).length := by
    have := hboth.second.whole.standing.le_size
    rwa [HostCursor.size_tape] at this
  constructor
  · have hinside := Outline.greens_images hsame (Outline.sketches .unplaced
      (Outline.ofView host.elements (.ofReports q.reports) [] (.rule r vs)).1)
    rw [Outline.images_sketches, hsketches, Outline.images_sketches] at hinside
    have hleft : ∀ n, ((h.significant g.language).drop n).map (fun t => GreenTree.token t.toHostToken) =
        ((h'.significant g.language).drop n).map (fun t => GreenTree.token t.toHostToken) := by
      intro n
      have hdropped := congrArg (fun ts => (ts.drop n).map GreenTree.token) hsame
      simpa only [HostText.lexemes, ← List.map_drop, List.map_map, Function.comp_def] using hdropped
    rw [hos, hos', Outline.images_append, Outline.images_append, PlacedTree.greens_append,
      PlacedTree.greens_append, HostCursor.images_between_tape hreached, HostCursor.images_between_tape hreached',
      PlacedTree.greens_map_token, PlacedTree.greens_map_token, hinside, hboth.index, hleft]
  · rw [hos, hos', Outline.messagesOf_append, Outline.messagesOf_append, Outline.messagesOf_map_token,
      Outline.messagesOf_map_token, ← Outline.messagesOf_sketches, hsketches, Outline.messagesOf_sketches]

section

variable {h h' : HostText} (host : Supervised GreenBuilder)
  (hrule : ∀ tokens, (g.entry (stepsFor tokens) entry).OrdinaryRule)
  (hheeds : ∀ tokens, (g.entry (stepsFor tokens) entry).Heeds .unplaced)
  (hsame : h.lexemes g.language = h'.lexemes g.language)

include hrule hheeds hsame

/-- **Recognition does not depend on the trivia.** -/
theorem recognize_overText :
    (s.recognize g entry (host.overText h g.language)).1.unplaced =
      (s.recognize g entry (host.overText h' g.language)).1.unplaced := by
  have hhosts := host.respaced_overText hsame
  unfold recognize Recognition.unplaced
  cases g.language.checkEntry entry with
  | error e => rfl
  | ok u =>
      simp only
      rcases runRecognizer_respaced (s := s) hhosts rfl (hrule _) (hheeds _) with
        ⟨a, ha, ha'⟩ | ⟨q, q', r, r', vs, vs', hboth⟩
      · rw [ha, ha']
      · rw [hboth.first.outcome, hboth.second.outcome]
        simp only [Except.map, hboth.tree_sketch, hboth.errors_sketch]

/-- **Neither does a projection**, if no token is empty. -/
theorem project_overText (root : Kind) (htexts : ∀ t ∈ h.lexemes g.language, 0 < t.text.utf8ByteSize) :
    (s.project g entry root (host.overText h g.language)).1.pruned g.language =
        (s.project g entry root (host.overText h' g.language)).1.pruned g.language ∧
      (s.project g entry root (host.overText h g.language)).1.stats =
        (s.project g entry root (host.overText h' g.language)).1.stats ∧
      (s.project g entry root (host.overText h g.language)).2.stats =
        (s.project g entry root (host.overText h' g.language)).2.stats := by
  cases hvalid : g.language.checkEntry entry with
  | error e =>
      unfold project Projection.pruned
      rw [hvalid]
      exact ⟨rfl, rfl, rfl⟩
  | ok u =>
      have hmarked := (Supervised.alongside_respaced.mark (host.respaced_overText hsame)).2
      -- Either both recognitions are given up for one reason, or both trees are laid out.
      rcases runRecognizer_respaced (s := s) hmarked rfl (hrule _) (hheeds _) with
        ⟨a, ha, ha'⟩ | ⟨q, q', r, r', vs, vs', hboth⟩
      · unfold project Projection.pruned
        rw [hvalid]
        simp only [ha, ha', traced, and_self]
      · have hpair := HostCursor.pairedOff_ofText hsame htexts host.elements
        rcases hboth.layOut hpair (host.overText h g.language).mark.1 root with
          ⟨a, p, p', hlaid, hlaid'⟩ | ⟨p, p', hlaid, hlaid', hstats⟩
        · obtain ⟨hout, hstats, hkept⟩ := project_of_layOut_error hvalid hboth.first.outcome hlaid
          obtain ⟨hout', hstats', hkept'⟩ := project_of_layOut_error hvalid hboth.second.outcome hlaid'
          unfold Projection.pruned
          rw [hout, hout', hstats, hstats', hkept, hkept']
          exact ⟨rfl, rfl, rfl⟩
        · -- both are laid out, and what is left is to hand the trees over
          obtain ⟨tree, hfinish, hgreen, hmessages⟩ := hboth.first.laidOut rfl rfl hlaid
          obtain ⟨tree', hfinish', hgreen', hmessages'⟩ := hboth.second.laidOut rfl rfl hlaid'
          obtain ⟨himages, htold⟩ := hboth.built hpair hsame rfl rfl
          have hgreens : tree.green.prune g.language = tree'.green.prune g.language := by
            rw [hgreen, hgreen']
            exact congrArg (fun ts => [GreenTree.node root ts]) himages
          have herrors : tree.errors.map ErrorElement.message = tree'.errors.map ErrorElement.message :=
            hmessages.trans (htold.trans hmessages'.symm)
          obtain ⟨hout, hcounts, hkept⟩ := project_of_layOut hvalid hboth.first.outcome hlaid hfinish
          obtain ⟨hout', hcounts', hkept'⟩ := project_of_layOut hvalid hboth.second.outcome hlaid' hfinish'
          unfold Projection.pruned
          rw [hout, hout', hcounts, hcounts', hkept, hkept', hstats]
          simp only [Except.map, hgreens, herrors, and_self]

/-- **Trivia make no difference.** Over two sources that have the same tokens without the trivia, none of them empty,
the recognizer makes the same parse tree and finds the same errors but for the places of tokens; and a projection
builds the same tree but for the trivia, with the same messages, and counts the same. -/
theorem project_respaced (root : Kind) (htexts : ∀ t ∈ h.lexemes g.language, 0 < t.text.utf8ByteSize) :
    (s.recognize g entry (host.overText h g.language)).1.unplaced =
        (s.recognize g entry (host.overText h' g.language)).1.unplaced ∧
      (s.project g entry root (host.overText h g.language)).1.pruned g.language =
        (s.project g entry root (host.overText h' g.language)).1.pruned g.language ∧
      (s.project g entry root (host.overText h g.language)).1.stats =
        (s.project g entry root (host.overText h' g.language)).1.stats ∧
      (s.project g entry root (host.overText h g.language)).2.stats =
        (s.project g entry root (host.overText h' g.language)).2.stats :=
  ⟨recognize_overText host hrule hheeds hsame, project_overText host hrule hheeds hsame root htexts⟩

end

end Session

namespace Sample

/-- A source with errors in it, and with trivia. -/
def spacedCall : HostText := cut "f ( 1 , ; // \n\x7d"

/-- The same with other trivia. -/
def denseCall : HostText := cut "// \n\nf(1,;\x7d"

end Sample

/-- The two sources become trees with the same messages, of which there are some. -/
theorem Session.project_respaced_call :
    Sample.spacedCall.lexemes Sample.language = Sample.denseCall.lexemes Sample.language ∧
    (∀ t ∈ Sample.spacedCall.lexemes Sample.language, 0 < t.text.utf8ByteSize) ∧
    (({} : Session).recognize Sample.grammar Sample.scriptRule
        ((Sample.host "").overText Sample.spacedCall Sample.language)).1.unplaced =
      (({} : Session).recognize Sample.grammar Sample.scriptRule
        ((Sample.host "").overText Sample.denseCall Sample.language)).1.unplaced ∧
    ∃ trees messages, messages ≠ [] ∧
      (({} : Session).project Sample.grammar Sample.scriptRule .file
        ((Sample.host "").overText Sample.spacedCall Sample.language)).1.pruned Sample.language =
          .ok (trees, messages) ∧
      (({} : Session).project Sample.grammar Sample.scriptRule .file
        ((Sample.host "").overText Sample.denseCall Sample.language)).1.pruned Sample.language =
          .ok (trees, messages) := by
  have hsame : Sample.spacedCall.lexemes Sample.language = Sample.denseCall.lexemes Sample.language := by
    decide +kernel
  have htexts : ∀ t ∈ Sample.spacedCall.lexemes Sample.language, 0 < t.text.utf8ByteSize := by decide +kernel
  obtain ⟨hrecognized, hprojected, -⟩ := @Session.project_respaced {} Sample.grammar Sample.scriptRule
    Sample.spacedCall Sample.denseCall (Sample.host "") (fun tokens => Sample.ordinaryRule_stepsFor tokens _)
    (fun tokens => (Sample.lexemeDriven_stepsFor tokens _).heeds .unplaced) hsame .file htexts
  refine ⟨hsame, htexts, hrecognized, ?_⟩
  have hrun : ∃ made, (({} : Session).project Sample.grammar Sample.scriptRule .file
      ((Sample.host "").overText Sample.spacedCall Sample.language)).1.pruned Sample.language = .ok made ∧
        made.2 ≠ [] := by decide +kernel
  obtain ⟨⟨trees, messages⟩, hpruned, hsome⟩ := hrun
  exact ⟨trees, messages, hsome, hpruned, hprojected.symm.trans hpruned⟩

end TreeProjection
