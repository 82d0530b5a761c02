import TreeProjection.Proofs.Attending
import TreeProjection.Proofs.Recorded
import TreeProjection.Proofs.Sample.Tiling

/-! # Errors in sample sources have a place in the host tree

The tokens of a sample source have texts, so no two of them stand at the same offset, and every error that is
collected has an error element around the token where it is anchored: as the region that the projection opens and
closes, and as an element of the finished tree.

* `PlacedTree.ErrorAround` — a tree has an error element around a place.
* `Sample.covers_projected` — whatever the host, an error element is made for each error.
* `Sample.project_error_around` — each error has its element. -/

namespace TreeProjection

open ParseNode (View)

/-! ## Error elements of a tree -/

namespace PlacedTree

mutual

/-- **A tree without trivia has an error element around the place `a`**, if `s` tokens come before it: at most `a`
tokens come before the element, and at least `a` before what comes after it. -/
def ErrorAround (a s : Nat) : PlacedTree → Prop
  | token _ => False
  | node kind children =>
    (kind = .error ∧ s ≤ a ∧ a ≤ s + (tokensOf children).length) ∨ ErrorAroundAny a s children

/-- One of several trees has an error element around a place. -/
def ErrorAroundAny (a s : Nat) : List PlacedTree → Prop
  | [] => False
  | t :: rest => ErrorAround a s t ∨ ErrorAroundAny a (s + t.tokens.length) rest

end

/-- Trees one after the other have an error element around a place. -/
theorem errorAroundAny_append {a s : Nat} (ts us : List PlacedTree) :
    ErrorAroundAny a s (ts ++ us) ↔
      ErrorAroundAny a s ts ∨ ErrorAroundAny a (s + (tokensOf ts).length) us := by
  induction ts generalizing s with
  | nil => simp [ErrorAroundAny, tokensOf]
  | cons t ts ih =>
      rw [List.cons_append, ErrorAroundAny, ErrorAroundAny, ih, tokensOf, List.length_append,
        Nat.add_assoc, or_assoc]

end PlacedTree

namespace Outline

variable {tokens : List PlacedToken}

/-- **All tokens are there**: each is one of the source. -/
def Found (tokens : List PlacedToken) (ts : List Token) : Prop :=
  ∀ t ∈ ts, (t.index.bind (tokens[·]?)).isSome

mutual

/-- The image of an outline has as many tokens as the outline passes. -/
theorem length_tokensOf_image : ∀ {o : Outline}, Found tokens o.tokens →
    (PlacedTree.tokensOf (image tokens o)).length = o.tokens.length
  | .token t, h => by
      obtain ⟨u, hu⟩ := Option.isSome_iff_exists.mp (h t List.mem_cons_self)
      rw [image, hu]
      rfl
  | .node kind parts, h => by
      rw [image, PlacedTree.tokensOf, PlacedTree.tokensOf, List.append_nil]
      exact length_tokensOf_images h
  | .error message parts, h => by
      rw [image, PlacedTree.tokensOf, PlacedTree.tokensOf, List.append_nil]
      exact length_tokensOf_images h

/-- The images of several outlines have as many tokens as the outlines pass. -/
theorem length_tokensOf_images : ∀ {os : List Outline}, Found tokens (tokensOf os) →
    (PlacedTree.tokensOf (images tokens os)).length = (tokensOf os).length
  | [], _ => rfl
  | o :: rest, h => by
      rw [images, PlacedTree.tokensOf_append, tokensOf, List.length_append, List.length_append,
        length_tokensOf_image fun t ht => h t (List.mem_append_left _ ht),
        length_tokensOf_images fun t ht => h t (List.mem_append_right _ ht)]

end

mutual

/-- **The image of an error element** is an error element around the same places. -/
theorem errorAroundAny_image {a : Nat} : ∀ {o : Outline} {s : Nat}, Found tokens o.tokens →
    o.Covers a s → PlacedTree.ErrorAroundAny a s (image tokens o)
  | .token _, _, _, h => h.elim
  | .node kind parts, s, hfound, h => .inl (.inr (errorAroundAny_images hfound h))
  | .error message parts, s, hfound, .inl h => by
      rw [← length_tokensOf_images hfound] at h
      exact .inl (.inl ⟨rfl, h⟩)
  | .error message parts, s, hfound, .inr h => .inl (.inr (errorAroundAny_images hfound h))

/-- The images of error elements are error elements around the same places. -/
theorem errorAroundAny_images {a : Nat} : ∀ {os : List Outline} {s : Nat},
    Found tokens (tokensOf os) → CoversAny a s os →
      PlacedTree.ErrorAroundAny a s (images tokens os)
  | [], _, _, h => h.elim
  | o :: rest, s, hfound, h => by
      have hfirst : Found tokens o.tokens := fun t ht => hfound t (List.mem_append_left _ ht)
      have hrest : Found tokens (tokensOf rest) := fun t ht => hfound t (List.mem_append_right _ ht)
      rw [images, PlacedTree.errorAroundAny_append, length_tokensOf_image hfirst]
      exact h.imp (errorAroundAny_image hfirst) (errorAroundAny_images hrest)

end

end Outline

/-! ## Projections of sample sources -/

namespace Session

variable {β τ : Type} [TreeBuilder β τ] [CursorBuilder β]

/-- **A projection onto a recording builder** has a region for each error element. -/
theorem Projected.recorded {s : Session} {g : Grammar} {entry : RuleIndex} {root : Kind}
    {h : HostText} {host : Supervised RecordingBuilder} {recording : Recording}
    {q : Parser (Supervised RecordingBuilder)} {r : RuleNode} {vs : List View} {a : Nat}
    (hprojected : s.Projected g entry root host recording q r vs)
    (hbuilder : host.builder = .ofText h g.language)
    (ha : Outline.CoversAny a 0
      (Outline.ofView host.elements (.ofReports q.reports) [] (.rule r vs)).1) :
    RecordingBuilder.ErrorAround a 0 recording.calls := by
  have hcursor : host.cursor = .ofText h g.language := congrArg CursorBuilder.cursor hbuilder
  obtain ⟨n, b, b', hback, hbuild, hfinish⟩ := hprojected.built
  have hstart : b.cursor = .ofText h g.language := by
    have hundone := (RecordingBuilder.rollback_iterate_advance host.builder n).symm.trans hback
    rw [← Except.ok.inj hundone]
    exact hcursor
  have hlength := hprojected.whole.tokensOf_ofView host.elements (.ofReports q.reports) []
  have hsize := HostCursor.size_tape host.elements host.cursor
  have hcalls := (RecordingBuilder.recorded_build hbuild (by
    rw [Outline.tokens, Outline.tokensOf_append, hlength, Outline.tokensOf_map_token, ← hsize,
      Tape.between_append _ (Nat.zero_le _) hprojected.whole.standing.le_size,
      (HostCursor.plain_tape _ _).length_between (Nat.le_refl _), hsize, hcursor, hstart]
    exact Nat.le_of_eq (Nat.zero_add _))).calls
  obtain ⟨cs, hcs, -, haround⟩ := hcalls
  have hempty : b.calls = #[] := by
    have hundone := (RecordingBuilder.rollback_iterate_advance host.builder n).symm.trans hback
    rw [← Except.ok.inj hundone, hbuilder]
    rfl
  have hrecording : recording.calls = b'.calls.toList := by
    change RecordingBuilder.finish b' = .ok recording at hfinish
    unfold RecordingBuilder.finish at hfinish
    split at hfinish
    · cases hfinish
      rfl
    · cases hfinish
  have hposition : b.cursor.position = 0 := by
    rw [hstart]
    rfl
  rw [hposition] at haround
  rw [hrecording, hcs, hempty]
  exact haround a ((Outline.coversAny_singleton _).mpr ((Outline.coversAny_append _ _).mpr (.inl ha)))

/-- **A projection into a tree** has an element for each error element. -/
theorem Projected.errorAroundAny {s : Session} {g : Grammar} {entry : RuleIndex} {root : Kind}
    {h : HostText} {host : Supervised GreenBuilder} {tree : HostTree}
    {q : Parser (Supervised GreenBuilder)} {r : RuleNode} {vs : List View} {a : Nat}
    (hprojected : s.Projected g entry root host tree q r vs)
    (hbuilder : host.builder = .ofText h g.language)
    (ha : Outline.CoversAny a 0
      (Outline.ofView host.elements (.ofReports q.reports) [] (.rule r vs)).1) :
    PlacedTree.ErrorAroundAny a 0 (tree.placed.prune g.language) := by
  have hcursor : host.cursor = .ofText h g.language := congrArg CursorBuilder.cursor hbuilder
  have hplain := HostCursor.plain_tape host.elements host.cursor
  have hsize : (host.cursor.tape host.elements).size = (h.significant g.language).length := by
    rw [hcursor]
    exact HostCursor.size_tape_ofText
  have hfound : Outline.Found (h.significant g.language) (Outline.tokensOf
      (Outline.ofView host.elements (.ofReports q.reports) [] (.rule r vs)).1) := by
    rw [hprojected.whole.tokensOf_ofView, hplain.between hprojected.whole.standing.le_size]
    intro t ht
    obtain ⟨i, hi, rfl⟩ := List.mem_map.mp ht
    have hle := hprojected.whole.standing.le_size
    have hlt : i < (h.significant g.language).length := by
      have := (List.mem_range'_1.mp hi).2
      omega
    simp [Tape.token_index, hsize, Nat.min_eq_left (Nat.le_of_lt hlt), hlt]
  obtain ⟨b, hbuild, hfinish, hin, hlen⟩ := hprojected.carried hbuilder rfl
  rw [(GreenBuilder.finish_build hbuild hfinish hin hlen).2.1, Outline.images_append]
  refine .inl (.inr ((PlacedTree.errorAroundAny_append _ _).mpr (.inl ?_)))
  exact Outline.errorAroundAny_images hfound ha

end Session

namespace Sample

variable {β τ : Type} [TreeBuilder β τ] [CursorBuilder β]

/-- **An error element is made for each error**, whatever the host. -/
theorem covers_projected {s : Session} {entry : RuleIndex} {root : Kind} {source : String}
    {host : Supervised β} {tree : τ} {q : Parser (Supervised β)} {r : RuleNode} {vs : List View}
    (hcursor : host.cursor = .ofText (cut source) language)
    (h : s.Projected grammar entry root host tree q r vs) {e : SyntaxError}
    (he : e ∈ (ErrorCollector.ofReports q.reports).errors) :
    ∃ a, a ≤ ((cut source).significant language).length ∧
      e.offending = (host.cursor.tape host.elements).token a ∧
      Outline.CoversAny a 0 (Outline.ofView host.elements (.ofReports q.reports) [] (.rule r vs)).1 := by
  refine h.exists_covers hcursor (fun t => utf8ByteSize_pos_of_mem_cut) (fun hfresh => ?_) he
  have hplain := HostCursor.plain_tape host.elements host.cursor
  obtain ⟨r', body, hentry, hsettles⟩ := composed_body
    (Recognizer.composed_settles (σ := Supervised β) hplain) _ entry
  exact Recognizer.runs_settled hfresh hplain hentry hsettles

/-- **Each error that is collected in a projection has an error element around it.** Whether the projection is
recorded or made into a tree: the error is placed at a token that is not trivia, or at the end, and some region that
is opened at the latest there is closed as an error element not before. -/
theorem project_error_around (s : Session) (entry : RuleIndex) (root : Kind) (source : String) :
    (∀ (host : Supervised RecordingBuilder) (recording : Recording),
      host.builder = .ofText (cut source) language →
      (s.project grammar entry root host).1.outcome = .ok recording →
      ∀ e ∈ (s.project (τ := Recording) grammar entry root host).1.errors,
        ∃ a, a ≤ ((cut source).significant language).length ∧
          e.offending = ((HostCursor.ofText (cut source) language).tape host.elements).token a ∧
          RecordingBuilder.ErrorAround a 0 recording.calls) ∧
    (∀ (host : Supervised GreenBuilder) (tree : HostTree),
      host.builder = .ofText (cut source) language →
      (s.project grammar entry root host).1.outcome = .ok tree →
      ∀ e ∈ (s.project (τ := HostTree) grammar entry root host).1.errors,
        ∃ a, a ≤ ((cut source).significant language).length ∧
          e.offending = ((HostCursor.ofText (cut source) language).tape host.elements).token a ∧
          PlacedTree.ErrorAroundAny a 0 (tree.placed.prune language)) := by
  constructor
  · intro host recording hbuilder hok e he
    have hcursor : host.cursor = .ofText (cut source) language :=
      congrArg CursorBuilder.cursor hbuilder
    obtain ⟨q, r, vs, hprojected⟩ := Session.projected (ordinaryRule_stepsFor _ _)
      (by rw [hcursor]; rfl) hok
    rw [Projection.errors, hprojected.reports] at he
    obtain ⟨a, ha, hoffending, hcovers⟩ := covers_projected hcursor hprojected he
    rw [hcursor] at hoffending
    exact ⟨a, ha, hoffending, hprojected.recorded hbuilder hcovers⟩
  · intro host tree hbuilder hok e he
    have hcursor : host.cursor = .ofText (cut source) language :=
      congrArg CursorBuilder.cursor hbuilder
    obtain ⟨q, r, vs, hprojected⟩ := Session.projected (ordinaryRule_stepsFor _ _)
      (by rw [hcursor]; rfl) hok
    rw [Projection.errors, hprojected.reports] at he
    obtain ⟨a, ha, hoffending, hcovers⟩ := covers_projected hcursor hprojected he
    rw [hcursor] at hoffending
    exact ⟨a, ha, hoffending, hprojected.errorAroundAny hbuilder hcovers⟩

/-- A recording builder over a source. -/
def recordingHost (source : String) : Supervised RecordingBuilder where
  builder := .ofText (cut source) language
  elements := language.elements

/-- A source in the sample language with two errors in it, the second one of which is found by a loop's guard. -/
theorem project_error_around_call :
    let source := "f ( 1 , ; // \n\x7d"
    let recorded : Projection Recording :=
      (({} : Session).project grammar scriptRule .file (recordingHost source)).1
    let projected : Projection HostTree :=
      (({} : Session).project grammar scriptRule .file (host source)).1
    ∃ recording tree, recorded.outcome = .ok recording ∧ projected.outcome = .ok tree ∧
      recorded.errors.size = 2 ∧ projected.errors.size = 2 ∧
      (∀ e ∈ recorded.errors, ∃ a, a ≤ ((cut source).significant language).length ∧
        e.offending =
          ((HostCursor.ofText (cut source) language).tape language.elements).token a ∧
        RecordingBuilder.ErrorAround a 0 recording.calls) ∧
      (∀ e ∈ projected.errors, ∃ a, a ≤ ((cut source).significant language).length ∧
        e.offending =
          ((HostCursor.ofText (cut source) language).tape language.elements).token a ∧
        PlacedTree.ErrorAroundAny a 0 (tree.placed.prune language)) := by
  intro source recorded projected
  have hrecorded : ∃ recording, recorded.outcome = .ok recording := by decide +kernel
  have hprojected : ∃ tree, projected.outcome = .ok tree := by decide +kernel
  have haround := project_error_around {} scriptRule .file source
  obtain ⟨recording, hrecording⟩ := hrecorded
  obtain ⟨tree, htree⟩ := hprojected
  exact ⟨recording, tree, hrecording, htree, by decide +kernel, by decide +kernel,
    haround.1 (recordingHost source) recording rfl hrecording, haround.2 (host source) tree rfl htree⟩

end Sample

end TreeProjection
