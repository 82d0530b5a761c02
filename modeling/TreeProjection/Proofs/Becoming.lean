import Mathlib.Data.List.Forall2
import TreeProjection.Proofs.Regions
import TreeProjection.Query.Basic

/-! # What regions become

The regions that are left in the end become the nodes of the tree, in the same order: a region that is opened before
another one becomes a node that comes before the other's, or around it.  Trivia are put in when the next region is
opened or the next token is passed.  When a region is opened, the trivia so far go before it, and so it begins with the
token that is current then; when it is closed, nothing has come after its last token.  Only the root holds trivia at
its ends.

* `HostText.offsetAt` — how many bytes a number of tokens take.
* `GreenBuilder.Region.Becomes` — the node that a region becomes.
* `Outline.becomes_laid` — the regions of an outline become the nodes that are assembled from it.
* `GreenBuilder.trivia_outside` — trivia stay outside of the nodes. -/

namespace TreeProjection

/-! ## Offsets -/

namespace HostText

variable {h : HostText} {l : Language} {i m k : Nat}

/-- How many bytes the first tokens take. -/
def offsetAt (h : HostText) (m : Nat) : Nat := lengthOf (h.tokens.take m)

/-- The tokens between two places end where the second one is. -/
theorem offsetAt_add (hmk : m ≤ k) : h.offsetAt m + lengthOf ((h.tokens.take k).drop m) = h.offsetAt k := by
  have hsplit := List.take_append_drop m (h.tokens.take k)
  rw [List.take_take, Nat.min_eq_left hmk] at hsplit
  have hlengths := congrArg lengthOf hsplit
  simpa only [offsetAt, lengthOf, List.map_append, List.sum_append] using hlengths

/-- They take no more than all. -/
theorem offsetAt_le (m : Nat) : h.offsetAt m ≤ lengthOf h.tokens := by
  have hlengths := congrArg lengthOf (List.take_append_drop m h.tokens)
  simp only [lengthOf, List.map_append, List.sum_append] at hlengths
  exact Nat.le.intro hlengths

/-- A token that has been laid starts after those before it. -/
theorem start_of_getElem? {place start i : Nat} {ts : List HostToken} {t : PlacedToken}
    (ht : (placeFrom place start ts)[i]? = some t) : t.start = start + lengthOf (ts.take i) := by
  induction ts generalizing place start i with
  | nil => cases ht
  | cons u ts ih =>
      cases i with
      | zero =>
          cases ht
          rfl
      | succ i =>
          rw [placeFrom, List.getElem?_cons_succ] at ht
          rw [ih ht, List.take_succ_cons, lengthOf, lengthOf, List.map_cons, List.sum_cons, Nat.add_assoc]

/-- **The offset of a token that is not trivia**; after the last one, that of the end of all tokens. -/
theorem offsetAt_placeAt (i : Nat) :
    h.offsetAt (h.placeAt l i) = ((h.significant l)[i]?.map PlacedToken.start).getD (lengthOf h.tokens) := by
  cases ht : (h.significant l)[i]? with
  | some t =>
      obtain ⟨hplace, hget, -⟩ := getElem?_placeAt ht
      rw [hplace, offsetAt, Option.map_some, Option.getD_some, start_of_getElem? hget, Nat.zero_add]
  | none =>
      rw [placeAt, ht, offsetAt]
      simp

/-- The tokens up to one of them, and that one. -/
theorem stretch_succ (hmk : m ≤ k) {t : PlacedToken} (ht : h.placed[k]? = some t) :
    h.stretch m (k + 1) = h.stretch m k ++ [.token t] := by
  have hlt : k < h.placed.length := (List.getElem?_eq_some_iff.mp ht).1
  have hle : m ≤ (h.placed.take k).length := by
    rw [List.length_take, Nat.min_eq_left (Nat.le_of_lt hlt)]
    exact hmk
  rw [stretch, List.take_add_one, ht, List.drop_append_of_le_length hle, List.map_append]
  rfl

/-- There is nothing between a place and itself. -/
@[simp] theorem stretch_self (m : Nat) : h.stretch m m = [] := by
  simp [stretch]

end HostText

/-! ## Elements in order -/

namespace PlacedTree

/-- Several trees without the places, one after the other. -/
theorem greens_eq_map (ts : List PlacedTree) : greens ts = ts.map green := by
  induction ts with
  | nil => rfl
  | cons t ts ih => rw [greens, ih, List.map_cons]

end PlacedTree

namespace GreenTree

/-- Elements side by side, and then others. -/
theorem preorders_append (path : List Nat) (start c : Nat) (ts us : List GreenTree) :
    preorders path start c (ts ++ us) =
      preorders path start c ts ++ preorders path (start + lengths ts) (c + ts.length) us := by
  induction ts generalizing start c with
  | nil => rfl
  | cons t ts ih =>
      simp only [List.cons_append, preorders, ih, lengths, List.length_cons, List.append_assoc, Nat.add_assoc,
        Nat.add_comm 1]

/-- Tokens side by side are no nodes. -/
theorem filter_isNode_preorders_token (path : List Nat) (start c : Nat) (ts : List PlacedToken) :
    (preorders path start c (PlacedTree.greens (ts.map .token))).filter Located.isNode = [] := by
  induction ts generalizing start c with
  | nil => rfl
  | cons t ts ih =>
      rw [List.map_cons, PlacedTree.greens, preorders, List.filter_append, ih, PlacedTree.green, preorder]
      rfl

end GreenTree

namespace Outline

variable {h : HostText} {l : Language} {i m n k : Nat} {trees : List PlacedTree} {r : List PlacedTree × Nat}

/-- The elements that are assembled end where as many tokens end as are in the tree. -/
theorem Laid.offsetAt (hr : Laid h l i m n trees r) :
    h.offsetAt m + GreenTree.lengths (PlacedTree.greens r.1) = h.offsetAt r.2 := by
  rw [← GreenTree.lengthOf_tokensOf, PlacedTree.tokensOf_greens, hr.tokens, List.map_drop, List.map_take,
    HostText.placed, HostText.map_toHostToken_placeFrom, HostText.offsetAt_add hr.le]

/-- Tokens as elements end where they end in the source. -/
theorem offsetAt_stretch (hmk : m ≤ k) :
    h.offsetAt m + GreenTree.lengths (PlacedTree.greens (h.stretch m k)) = h.offsetAt k := by
  rw [← GreenTree.lengthOf_tokensOf, PlacedTree.tokensOf_greens, HostText.stretch, PlacedTree.tokensOf_map_token,
    List.map_drop, List.map_take, HostText.placed, HostText.map_toHostToken_placeFrom, HostText.offsetAt_add hmk]

/-! ### The ends of what is assembled -/

/-- An element is no trivia token. -/
def Solid (l : Language) (t : PlacedTree) : Prop := ∀ u, t = .token u → l.isTrivia u.kind = false

/-- Without its place, it is none either. -/
theorem Solid.green {t : PlacedTree} {u : HostToken} (ht : Solid l t) (hu : t.green = .token u) :
    l.isTrivia u.kind = false := by
  cases t with
  | token v =>
      cases hu
      exact ht v rfl
  | node kind children => cases hu

/-- A token that is passed is no trivia token. -/
theorem solid_token {t : PlacedToken} (ht : (h.significant l)[i]? = some t) : Solid l (.token t) := by
  rintro u ⟨rfl⟩
  have hmem : t ∈ h.significant l := List.mem_of_getElem? ht
  simpa using (List.mem_filter.mp hmem).2

/-- **The last element that is assembled from an outline** is no trivia token. -/
theorem solid_getLast?_laid {o : Outline} (hm : h.Fits l i m)
    (hroom : i + o.tokens.length ≤ (h.significant l).length) {t : PlacedTree}
    (ht : (laid h l i m o).1.getLast? = some t) : Solid l t := by
  cases o with
  | token u =>
      have hget := List.getElem?_eq_getElem (show i < (h.significant l).length from hroom)
      obtain ⟨hplace, hplaced, -⟩ := HostText.getElem?_placeAt hget
      rw [← hplace] at hplaced
      rw [laid, HostText.stretch_succ hm.le_placeAt hplaced, List.getLast?_append, List.getLast?_singleton] at ht
      cases ht
      exact solid_token hget
  | node kind parts =>
      rw [laid, List.getLast?_append, List.getLast?_singleton] at ht
      cases ht
      exact nofun
  | error message parts =>
      rw [laid, List.getLast?_append, List.getLast?_singleton] at ht
      cases ht
      exact nofun

/-- The last element that is assembled from several outlines is no trivia token. -/
theorem solid_getLast?_laidAll {os : List Outline} (hm : h.Fits l i m) (hin : InOrder i (tokensOf os))
    (hroom : i + (tokensOf os).length ≤ (h.significant l).length) {t : PlacedTree}
    (ht : (laidAll h l i m os).1.getLast? = some t) : Solid l t := by
  induction os generalizing i m with
  | nil => cases ht
  | cons o rest ih =>
      rw [tokensOf, inOrder_append] at hin
      rw [tokensOf, List.length_append] at hroom
      rw [laidAll, List.getLast?_append, Option.or_eq_some_iff] at ht
      rcases ht with ht | ⟨-, ht⟩
      · exact ih (laid_laid o i m hm hin.1 (by omega)).fits hin.2 (by omega) ht
      · exact solid_getLast?_laid hm (by omega) ht

/-- **The first element that is assembled after the trivia** is no trivia token. -/
theorem solid_head?_laidAll {os : List Outline} (hroom : i + (tokensOf os).length ≤ (h.significant l).length)
    {t : PlacedTree} (ht : (laidAll h l i (h.placeAt l i) os).1.head? = some t) : Solid l t := by
  match os with
  | [] => cases ht
  | .token u :: rest =>
      have hlt : i < (h.significant l).length := by
        simp only [tokensOf, tokens, List.length_append, List.length_singleton] at hroom
        omega
      have hget := List.getElem?_eq_getElem hlt
      obtain ⟨hplace, hplaced, -⟩ := HostText.getElem?_placeAt hget
      rw [← hplace] at hplaced
      rw [laidAll, laid, HostText.stretch_succ (Nat.le_refl _) hplaced, HostText.stretch_self] at ht
      cases ht
      exact solid_token hget
  | .node kind parts :: rest =>
      rw [laidAll, laid, HostText.stretch_self] at ht
      cases ht
      exact nofun
  | .error message parts :: rest =>
      rw [laidAll, laid, HostText.stretch_self] at ht
      cases ht
      exact nofun

end Outline

/-! ## Regions and nodes -/

namespace GreenBuilder

open Outline

/-- **The node that a region becomes**, when all tokens take a number of bytes. -/
structure Region.Becomes (l : Language) (stop : Nat) (r : Region) (x : Located) : Prop where
  /-- It is a node. -/
  node : x.isNode = true
  /-- It has the kind that the region was closed with. -/
  kind : r.closing.map Closing.kind = some x.kind
  /-- It starts with the token that was current when the region was opened. -/
  start : x.start = (r.current.map PlacedToken.start).getD stop
  /-- It does not begin or end with a trivia token. -/
  ends : ∀ t, x.element.children.head? = some (.token t) ∨ x.element.children.getLast? = some (.token t) →
    l.isTrivia t.kind = false

variable {h : HostText} {l : Language}

/-- **A region becomes a node** over what is assembled from its parts. -/
theorem becomes_region {i n : Nat} {path : List Nat} {closing : Closing} {parts : List Outline}
    (hin : InOrder i (tokensOf parts)) (hroom : i + (tokensOf parts).length ≤ (h.significant l).length) :
    Region.Becomes l (HostText.lengthOf h.tokens) ⟨n, (h.significant l).toArray[i]?, some closing⟩
      ⟨.node closing.kind (PlacedTree.greens (laidAll h l i (h.placeAt l i) parts).1), h.offsetAt (h.placeAt l i),
        path⟩ where
  node := rfl
  kind := rfl
  start := by
    rw [HostText.offsetAt_placeAt, List.getElem?_toArray]
  ends := by
    intro t ht
    simp only [GreenTree.children, PlacedTree.greens_eq_map, List.head?_map, List.getLast?_map,
      Option.map_eq_some_iff] at ht
    rcases ht with ⟨u, hu, hgreen⟩ | ⟨u, hu, hgreen⟩
    · exact (solid_head?_laidAll hroom hu).green hgreen
    · exact (solid_getLast?_laidAll (HostText.fits_placeAt i) hin hroom hu).green hgreen

variable (h l) in
/-- **What is recorded of outlines becomes the nodes that are assembled from them.** -/
def Become (n : Nat) (es : List Event) (path : List Nat) (m c : Nat) (trees : List PlacedTree) : Prop :=
  List.Forall₂ (Region.Becomes l (HostText.lengthOf h.tokens)) (recorded (h.significant l).toArray n es)
    ((GreenTree.preorders path (h.offsetAt m) c (PlacedTree.greens trees)).filter Located.isNode)

/-- A region and what is inside of it become a node and the nodes below. -/
theorem become_region {i n m c : Nat} {path : List Nat} (closing : Closing) {parts : List Outline}
    (hm : h.Fits l i m) (hin : InOrder i (tokensOf parts))
    (hroom : i + (tokensOf parts).length ≤ (h.significant l).length)
    (hinside : ∀ path, Become h l (n + 1) (eventsOf (h.placeAt l) i parts) path (h.placeAt l i) 0
      (laidAll h l i (h.placeAt l i) parts).1) :
    Become h l n (.opened i (some closing) :: (eventsOf (h.placeAt l) i parts ++ [.closed])) path m c
      (h.stretch m (h.placeAt l i) ++ [.node closing.kind (laidAll h l i (h.placeAt l i) parts).1]) := by
  have hstart : h.offsetAt m + GreenTree.lengths (PlacedTree.greens (h.stretch m (h.placeAt l i))) =
      h.offsetAt (h.placeAt l i) := offsetAt_stretch hm.le_placeAt
  have hbefore : (GreenTree.preorders path (h.offsetAt m) c
      (PlacedTree.greens (h.stretch m (h.placeAt l i)))).filter Located.isNode = [] :=
    GreenTree.filter_isNode_preorders_token _ _ _ _
  rw [Become, recorded, recorded_append, PlacedTree.greens_append, GreenTree.preorders_append, List.filter_append,
    hbefore, hstart, List.nil_append]
  simp only [recorded, List.append_nil, PlacedTree.greens, PlacedTree.green, GreenTree.preorders, GreenTree.preorder]
  exact .cons (becomes_region hin hroom) (hinside _)

mutual

/-- **The regions of an outline become the nodes that are assembled from it**, in order. -/
theorem become_laid : ∀ (o : Outline) (n i m c : Nat) (path : List Nat), h.Fits l i m → InOrder i o.tokens →
    i + o.tokens.length ≤ (h.significant l).length →
      Become h l n (o.events (h.placeAt l) i) path m c (laid h l i m o).1
  | .token t, n, i, m, c, path, _, _, _ => by
      rw [Become, laid, HostText.stretch, GreenTree.filter_isNode_preorders_token]
      exact .nil
  | .node kind parts, n, i, m, c, path, hm, hin, hroom => by
      rw [laid, Outline.events, Nat.max_eq_right hm.le_placeAt]
      exact become_region (.node kind) hm hin hroom fun path =>
        become_laidAll parts (n + 1) i _ 0 path (HostText.fits_placeAt i) hin hroom
  | .error message parts, n, i, m, c, path, hm, hin, hroom => by
      rw [laid, Outline.events, Nat.max_eq_right hm.le_placeAt]
      exact become_region (.error message) hm hin hroom fun path =>
        become_laidAll parts (n + 1) i _ 0 path (HostText.fits_placeAt i) hin hroom

/-- The regions of several outlines become the nodes that are assembled from them, in order. -/
theorem become_laidAll : ∀ (os : List Outline) (n i m c : Nat) (path : List Nat), h.Fits l i m →
    InOrder i (tokensOf os) → i + (tokensOf os).length ≤ (h.significant l).length →
      Become h l n (eventsOf (h.placeAt l) i os) path m c (laidAll h l i m os).1
  | [], n, i, m, c, path, _, _, _ => .nil
  | o :: rest, n, i, m, c, path, hm, hin, hroom => by
      rw [tokensOf, inOrder_append] at hin
      rw [tokensOf, List.length_append] at hroom
      have hlaid := laid_laid o i m hm hin.1 (by omega)
      have hfirst := become_laid o n i m c path hm hin.1 (by omega)
      have hothers := become_laidAll rest (n + (o.events (h.placeAt l) i).length) (i + o.tokens.length)
        (laid h l i m o).2 (c + (PlacedTree.greens (laid h l i m o).1).length) path hlaid.fits hin.2 (by omega)
      rw [Become, ← hlaid.offsetAt] at hothers
      rw [Become, eventsOf, laidAll, recorded_append, PlacedTree.greens_append, GreenTree.preorders_append,
        List.filter_append]
      exact List.rel_append hfirst hothers

end

/-- **The regions of an accepted record become the nodes of the tree**: the first one becomes the root, and the others
those below it. -/
theorem Rooted.become {es : List Event} {tree : HostTree} {closing : Closing} {parts : List Outline}
    (hroot : Rooted h l es tree closing parts) : ∃ rs xs,
      recorded (h.significant l).toArray 0 es = ⟨0, (h.significant l)[0]?, some closing⟩ :: rs ∧
      (⟨tree, l⟩ : Query).nodes = ⟨tree.green, 0, []⟩ :: xs ∧
      List.Forall₂ (Region.Becomes l (HostText.lengthOf h.tokens)) rs xs := by
  obtain ⟨more, hes, hmore⟩ := hroot.events
  have hfits : h.Fits l 0 0 := ⟨Nat.zero_le _, by simp⟩
  have hroom : 0 + (tokensOf parts).length ≤ (h.significant l).length := by
    rw [Nat.zero_add]
    exact hroot.room
  have hinside := become_laidAll parts 1 0 0 0 [] hfits hroot.inOrder hroom
  have hstart : h.offsetAt 0 = 0 := rfl
  rw [Become, hstart] at hinside
  refine ⟨_, _, ?_, ?_, hinside⟩
  · rw [hes, List.cons_append, List.append_assoc, recorded, recorded_append, List.getElem?_toArray]
    simp [recorded, recorded_tokens hmore]
  · have hafter := GreenTree.filter_isNode_preorders_token
    rw [Query.nodes, Query.root, Located.preorder, hroot.green]
    simp only [GreenTree.preorder, PlacedTree.greens_append, GreenTree.preorders_append]
    rw [List.filter_cons_of_pos rfl, List.filter_append, HostText.stretch, hafter, List.append_nil]

/-- Every region of an accepted record becomes a node of the kind that it was closed with. -/
theorem Rooted.kinds {es : List Event} {tree : HostTree} {closing : Closing} {parts : List Outline}
    (hroot : Rooted h l es tree closing parts) :
    List.Forall₂ (fun r x => x.isNode = true ∧ r.closing.map Closing.kind = some x.kind)
      (recorded (h.significant l).toArray 0 es) (⟨tree, l⟩ : Query).nodes := by
  obtain ⟨rs, xs, hregions, hnodes, hbecome⟩ := hroot.become
  rw [hregions, hnodes, hroot.green]
  exact .cons ⟨rfl, rfl⟩ (hbecome.imp fun r x hx => ⟨hx.node, hx.kind⟩)

/-- The root is as long as all tokens. -/
theorem Rooted.length_green {es : List Event} {tree : HostTree} {closing : Closing} {parts : List Outline}
    (hroot : Rooted h l es tree closing parts) : tree.green.length = HostText.lengthOf h.tokens := by
  have hfits : h.Fits l 0 0 := ⟨Nat.zero_le _, by simp⟩
  have hlaid := laidAll_laid parts 0 0 hfits hroot.inOrder (by simpa using hroot.room)
  rw [hroot.green, GreenTree.length, ← GreenTree.lengthOf_tokensOf, PlacedTree.tokensOf_greens, tokensOf_root hlaid,
    HostText.placed, HostText.map_toHostToken_placeFrom]

/-- **Trivia stay outside of the nodes.**  Whatever calls have been made over a source that its tokens cover: if a tree
is handed over in the end, then no node but the root begins or ends with a trivia token.  The regions that are left are
the nodes, in order, and one that is not the root, or that has no text, starts with the token that was current when the
region was opened, or at the end of the source if there was none. -/
theorem trivia_outside {b : GreenBuilder} {calls : List BuilderCall} {tree : HostTree} (hcovered : h.rest = "")
    (hcalls : BuilderCall.runAll (ofText h l) calls = .ok b) (hfinish : b.finish = .ok tree) :
    (∀ x ∈ (⟨tree, l⟩ : Query).nodes, x.path ≠ [] → ∀ t,
      x.element.children.head? = some (.token t) ∨ x.element.children.getLast? = some (.token t) →
        l.isTrivia t.kind = false) ∧
    List.Forall₂ (fun r x => r.closing.map Closing.kind = some x.kind ∧
        (x.path ≠ [] ∨ x.span.isEmpty = true → x.start = (r.current.map PlacedToken.start).getD h.length))
      (BuilderCall.regions (ofText h l) [] calls) (⟨tree, l⟩ : Query).nodes := by
  obtain ⟨closing, parts, hrooted⟩ := exists_root hcalls hfinish
  obtain ⟨rs, xs, hregions, hnodes, hbecome⟩ := hrooted.become
  have hlength : h.length = HostText.lengthOf h.tokens := by
    rw [HostText.length_eq, hcovered]
    rfl
  -- The regions that were kept are those of the record, whose first becomes the root.
  rw [regions_eq_recorded hcalls hfinish, hregions, hnodes]
  constructor
  · intro x hx hpath
    have hends := (List.forall₂_and_left _ _).mp
      ((List.Forall₂.flip (R := fun x r => Region.Becomes l _ r x) hbecome).imp fun x r hr => ⟨hr.ends, hr⟩)
    rcases List.mem_cons.mp hx with rfl | hx
    · exact absurd rfl hpath
    · exact hends.1 x hx
  · refine .cons ⟨?_, fun hroot => ?_⟩ (hbecome.imp fun r x hx => ⟨hx.kind, fun _ => ?_⟩)
    · rw [hrooted.green]
      rfl
    · have hempty : tree.green.length = 0 := by simpa [Located.span, Span.isEmpty] using hroot
      have hle := HostText.offsetAt_le (h := h) (h.placeAt l 0)
      rw [← hrooted.length_green, hempty] at hle
      rw [hlength, ← HostText.offsetAt_placeAt]
      exact (Nat.le_zero.mp hle).symm
    · rw [hlength]
      exact hx.start

/-- Calls over a source with trivia on all sides.  A region is closed with nothing in it, and two are dropped, one of
them closed before.  Inside of an error element there is one that holds nothing, and another one stands at the end. -/
def sampleCalls : List BuilderCall :=
  [.mark, .mark, .done 1 .file, .advance, .mark, .advance, .mark, .error 6 "missing", .rollback 4, .advance, .mark,
    .mark, .error 6 "number", .advance, .error 5 "operand", .advance, .mark, .error 11 "late", .done 0 .file]

/-- The nodes without text start with the tokens that were current, or at the end, and not where the trivia before them
do. -/
theorem trivia_outside_calls : ∃ b tree,
    (Sample.cut " x = // \n 1 ; ").rest = "" ∧
    BuilderCall.runAll (ofText (Sample.cut " x = // \n 1 ; ") Sample.language) sampleCalls = .ok b ∧
    b.finish = .ok tree ∧
    (BuilderCall.regions (ofText (Sample.cut " x = // \n 1 ; ") Sample.language) [] sampleCalls).map
      (fun r => r.current.map PlacedToken.start) = [some 1, some 1, some 10, some 10, none] ∧
    (∀ x ∈ (⟨tree, Sample.language⟩ : Query).nodes, x.path ≠ [] → ∀ t,
      x.element.children.head? = some (.token t) ∨ x.element.children.getLast? = some (.token t) →
        Sample.language.isTrivia t.kind = false) ∧
    List.Forall₂ (fun r x => r.closing.map Closing.kind = some x.kind ∧
        (x.path ≠ [] ∨ x.span.isEmpty = true → x.start = (r.current.map PlacedToken.start).getD
          (Sample.cut " x = // \n 1 ; ").length))
      (BuilderCall.regions (ofText (Sample.cut " x = // \n 1 ; ") Sample.language) [] sampleCalls)
      (⟨tree, Sample.language⟩ : Query).nodes := by
  have hrun : ∃ tree, (BuilderCall.runAll (ofText (Sample.cut " x = // \n 1 ; ") Sample.language) sampleCalls
      >>= finish) = .ok tree := by decide +kernel
  obtain ⟨tree, hall⟩ := hrun
  obtain ⟨b, hcalls, hfinish⟩ := BuilderCall.exists_of_bind hall
  exact ⟨b, tree, rfl, hcalls, hfinish, by decide +kernel, trivia_outside rfl hcalls hfinish⟩

end GreenBuilder

end TreeProjection
