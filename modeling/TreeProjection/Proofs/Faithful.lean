import Mathlib.Data.List.Basic
import TreeProjection.Proofs.Building
import TreeProjection.Proofs.Projecting
import TreeProjection.Proofs.Sample.Shape
import TreeProjection.Sample.Parse

/-! # Projections keep the parse tree

What a projection builds is the parse tree that the recognizer makes on its own, with the trivia put in and the
tokens that the recognizer did not reach added at the end.

* `ParseNode.View.image` — a parse tree as a host tree without trivia.
* `Session.project_eq_image` — a projection that succeeds has built the image of the parse tree. -/

namespace TreeProjection

open ParseNode (View)

/-- **A parse tree as a host tree** over the tokens that are not trivia.  A rule is a node of its kind, or, if an
exception ended it, an error element.  A token of the input is the host token that it was read from, and the end
of the input is nothing.  A made-up token is an error element without anything inside, and a token that was passed
over is an error element around it if errors at its offset have no such element yet. -/
def ParseNode.View.image (v : View) (e : ElementTypes) (errors : ErrorIndex)
    (tokens : List PlacedToken) : List PlacedTree :=
  Outline.images tokens (Outline.ofView e errors [] v).1

namespace Outline

@[simp] theorem images_append (tokens : List PlacedToken) (os os' : List Outline) :
    images tokens (os ++ os') = images tokens os ++ images tokens os' := by
  induction os with
  | nil => rfl
  | cons o os ih => simp [images, ih]

/-- Tokens that are passed one after the other. -/
theorem tokensOf_map_token (ts : List Token) : tokensOf (ts.map .token) = ts := by
  induction ts with
  | nil => rfl
  | cons t ts ih => simp [tokensOf, tokens, ih]

/-- The images of tokens are the host tokens that they were read from. -/
theorem images_map_token (tokens : List PlacedToken) (ts : List Token) :
    images tokens (ts.map .token) =
      (ts.filterMap fun t => t.index.bind (tokens[·]?)).map .token := by
  induction ts with
  | nil => rfl
  | cons t ts ih =>
      rw [List.map_cons, images, image, ih, List.filterMap_cons]
      cases t.index.bind (tokens[·]?) <;> rfl

end Outline

/-- The elements of a list from a place on, each found by its place. -/
theorem filterMap_getElem?_range' {α : Type} (xs : List α) (n k : Nat) (h : xs.length = n + k) :
    (List.range' n k).filterMap (xs[·]?) = xs.drop n := by
  induction k generalizing n with
  | zero => rw [List.drop_eq_nil_of_le (by omega)]; rfl
  | succ k ih =>
      have hn : n < xs.length := by omega
      rw [List.range'_succ, List.filterMap_cons, List.getElem?_eq_getElem hn, ih (n + 1) (by omega),
        List.drop_eq_getElem_cons hn]

namespace HostCursor

variable {h : HostText} {l : Language} {e : ElementTypes} {n : Nat}

/-- What a cursor at the start of a source gives: the tokens that are not trivia. -/
theorem size_tape_ofText : ((ofText h l).tape e).size = (h.significant l).length := by
  simp [ofText]

/-- The tokens that are given first. -/
theorem between_tape_ofText (hn : n ≤ (h.significant l).length) :
    ((ofText h l).tape e).between 0 n = ((h.significant l).take n).mapIdx fun i t =>
      { e.read t with index := some i } := by
  rw [(plain_tape e _).between (by rwa [size_tape_ofText])]
  refine List.ext_getElem (by simp [hn]) fun i h1 h2 => ?_
  have hi : i < n := by simpa using h1
  have hget : (ofText h l).tokens[i]? = some (h.significant l)[i] := by
    simp [ofText, Nat.lt_of_lt_of_le hi hn]
  simp [token_tape e _ hget]

/-- The images of the tokens that are given from a place on. -/
theorem images_between_tape (hn : n ≤ (h.significant l).length) :
    Outline.images (h.significant l) ((((ofText h l).tape e).between n
      (h.significant l).length).map .token) = ((h.significant l).drop n).map .token := by
  have hsize : ((ofText h l).tape e).size = (h.significant l).length := size_tape_ofText
  rw [Outline.images_map_token, (plain_tape e _).between (Nat.le_of_eq hsize.symm),
    List.filterMap_map, ← filterMap_getElem?_range' _ n ((h.significant l).length - n) (by omega)]
  congr 1
  refine List.filterMap_congr fun i hi => ?_
  have hlt : i < (h.significant l).length := by
    have := (List.mem_range'_1.mp hi).2
    omega
  simp [Tape.token_index, hsize, Nat.min_eq_left (Nat.le_of_lt hlt)]

end HostCursor

/-- A whole parse goes no further than to the end of the source. -/
theorem Parser.Whole.index_le {σ : Type} [TokenSource σ] {h : HostText} {l : Language} {k : ElementTypes}
    {q : Parser σ} {r : RuleNode} {vs : List View}
    (hwhole : q.Whole ((HostCursor.ofText h l).tape k) r vs) : q.index ≤ (h.significant l).length := by
  have hle := hwhole.standing.le_size
  rwa [HostCursor.size_tape_ofText] at hle

/-- **The outline of a whole parse and what is left pass all tokens of a source**, in order. -/
theorem Parser.Whole.inOrder {σ : Type} [TokenSource σ] {h : HostText} {l : Language} {k : ElementTypes}
    {q : Parser σ} {r : RuleNode} {vs : List View}
    (hwhole : q.Whole ((HostCursor.ofText h l).tape k) r vs) (e : ElementTypes) (errors : ErrorIndex)
    {os : List Outline} (hos : os = (Outline.ofView e errors [] (.rule r vs)).1 ++
      (((HostCursor.ofText h l).tape k).between q.index (h.significant l).length).map .token) :
    Outline.InOrder 0 (Outline.tokensOf os) ∧ (Outline.tokensOf os).length = (h.significant l).length := by
  have hreached := hwhole.index_le
  have htokens : Outline.tokensOf os = (h.significant l).mapIdx fun i t =>
      { k.read t with index := some i } := by
    rw [hos, Outline.tokensOf_append, hwhole.tokensOf_ofView, Outline.tokensOf_map_token,
      Tape.between_append _ (Nat.zero_le _) hreached, HostCursor.between_tape_ofText (Nat.le_refl _),
      List.take_length]
  refine ⟨?_, by rw [htokens, List.length_mapIdx]⟩
  rw [htokens, Outline.InOrder]
  refine List.ext_getElem (by simp) fun i h1 h2 => ?_
  simp

namespace Session

/-- **What a projection that succeeds has carried out on a source**: the outline of the parse tree and what is left
pass all tokens in order, and they are carried out under the root. -/
theorem Projected.carried {s : Session} {g : Grammar} {entry : RuleIndex} {root : Kind}
    {h : HostText} {host : Supervised GreenBuilder} {tree : HostTree}
    {q : Parser (Supervised GreenBuilder)} {r : RuleNode} {vs : List View} {os : List Outline}
    (hprojected : s.Projected g entry root host tree q r vs)
    (hbuilder : host.builder = .ofText h g.language)
    (hos : os = (Outline.ofView host.elements (.ofReports q.reports) [] (.rule r vs)).1 ++
      (((HostCursor.ofText h g.language).tape host.elements).between q.index
        (h.significant g.language).length).map .token) :
    ∃ b, Outline.build (.node root os) (GreenBuilder.ofText h g.language) = .ok b ∧
      b.finish = .ok tree ∧ Outline.InOrder 0 (Outline.tokensOf os) ∧
      (Outline.tokensOf os).length = (h.significant g.language).length := by
  have hcursor : host.cursor = .ofText h g.language := congrArg CursorBuilder.cursor hbuilder
  have hwhole := hprojected.whole
  obtain ⟨n, b, b', hback, hbuild, hfinish⟩ := hprojected.built
  rw [hcursor] at hwhole hbuild
  have hsize : (HostCursor.ofText h g.language).tokens.size = (h.significant g.language).length := by
    simp [HostCursor.ofText]
  have hstart : b = .ofText h g.language := by
    have hundone := (GreenBuilder.rollback_iterate_advance host.builder n).symm.trans hback
    rw [hbuilder] at hundone
    exact (Except.ok.inj hundone).symm
  rw [hstart, hsize, ← hos] at hbuild
  exact ⟨b', hbuild, hfinish, hwhole.inOrder _ _ hos⟩

/-- **A projection that succeeds has built the image of the parse tree** that the recognizer makes on its own,
followed by the tokens that the recognizer did not reach. -/
theorem project_eq_image {s : Session} {g : Grammar} {entry : RuleIndex} {root : Kind}
    {h : HostText} {host : Supervised GreenBuilder} {tree : HostTree}
    (hbuilder : host.builder = .ofText h g.language)
    (hrule : ∀ tokens, (g.entry (stepsFor tokens) entry).OrdinaryRule)
    (hok : (s.project g entry root host).1.outcome = .ok tree) :
    ∃ t errors v n, (s.recognize g entry host).1.outcome = .ok (t, errors) ∧ t.view? = some v ∧
      View.read [v] = ((h.significant g.language).take n).mapIdx
        (fun i t => { host.elements.read t with index := some i }) ∧
      tree.placed.prune g.language = [.node root
        (v.image host.elements errors (h.significant g.language) ++
          ((h.significant g.language).drop n).map .token)] := by
  have hcursor : host.cursor = .ofText h g.language := congrArg CursorBuilder.cursor hbuilder
  obtain ⟨q, r, vs, hprojected⟩ := projected (hrule _) (by rw [hcursor]; rfl) hok
  have hwhole := hprojected.whole
  rw [hcursor] at hwhole
  have hreached : q.index ≤ (h.significant g.language).length := by
    have := hwhole.standing.le_size
    rwa [HostCursor.size_tape_ofText] at this
  refine ⟨q.tree, _, .rule r vs, q.index, hprojected.recognize (hrule _), hwhole.view, ?_, ?_⟩
  · rw [View.read_rule, hwhole.read, HostCursor.between_tape_ofText hreached]
  · obtain ⟨b, hbuild, hfinish, hin, hlen⟩ := hprojected.carried hbuilder rfl
    rw [(GreenBuilder.finish_build hbuild hfinish hin hlen).2.1, Outline.images_append,
      HostCursor.images_between_tape hreached]
    rfl

/-- A source in the sample language with an error in it, and with trivia. -/
theorem project_eq_image_call : ∃ tree t errors v n,
    (({} : Session).project Sample.grammar Sample.scriptRule .file
      (Sample.host "f ( 1 , ; // \n\x7d")).1.outcome = .ok tree ∧
    (({} : Session).recognize Sample.grammar Sample.scriptRule
      (Sample.host "f ( 1 , ; // \n\x7d")).1.outcome = .ok (t, errors) ∧ t.view? = some v ∧
    View.read [v] = (((Sample.cut "f ( 1 , ; // \n\x7d").significant Sample.language).take n).mapIdx
      (fun i t => { Sample.language.elements.read t with index := some i }) ∧
    tree.placed.prune Sample.language = [.node .file
      (v.image Sample.language.elements errors
          ((Sample.cut "f ( 1 , ; // \n\x7d").significant Sample.language) ++
        (((Sample.cut "f ( 1 , ; // \n\x7d").significant Sample.language).drop n).map .token)] := by
  have hrun : ∃ tree : HostTree, (({} : Session).project Sample.grammar Sample.scriptRule .file
      (Sample.host "f ( 1 , ; // \n\x7d")).1.outcome = .ok tree := by decide +kernel
  obtain ⟨tree, houtcome⟩ := hrun
  obtain ⟨t, errors, v, n, h⟩ := project_eq_image (h := Sample.cut "f ( 1 , ; // \n\x7d") rfl
    (fun tokens => Sample.ordinaryRule_stepsFor tokens _) houtcome
  exact ⟨tree, t, errors, v, n, houtcome, h⟩

end Session

end TreeProjection
