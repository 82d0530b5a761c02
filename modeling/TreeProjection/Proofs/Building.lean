import TreeProjection.Proofs.Hosting
import TreeProjection.Proofs.Placing
import TreeProjection.Proofs.Replay

/-! # What the green builder makes of an outline

The green builder keeps a record of an outline that is carried out on it, and assembles the tree from the record
at the end.  Trivia are put in where the next element begins, so that the tree holds every token of the source in
its place, and without the trivia it is the image of the outline.

* `Outline.image` — an outline as a tree.
* `Outline.laid` — the elements that are assembled from an outline.
* `Outline.events` — the record of an outline.
* `GreenBuilder.finish_build` — what an outline under a root becomes. -/

namespace TreeProjection

/-! ## Outlines as trees -/

namespace Outline

mutual

/-- **An outline as a tree** over the tokens that are not trivia: a token is the one that its leaf was read from. -/
def image (tokens : List PlacedToken) : Outline → List PlacedTree
  | token t => (t.index.bind (tokens[·]?)).toList.map .token
  | node kind parts => [.node kind (images tokens parts)]
  | error _ parts => [.node .error (images tokens parts)]

/-- Several outlines as trees. -/
def images (tokens : List PlacedToken) : List Outline → List PlacedTree
  | [] => []
  | o :: rest => image tokens o ++ images tokens rest

end

mutual

/-- The messages of the error elements, each before those inside it. -/
def messages : Outline → List String
  | token _ => []
  | node _ parts => messagesOf parts
  | error message parts => message :: messagesOf parts

/-- The messages of the error elements of several outlines. -/
def messagesOf : List Outline → List String
  | [] => []
  | o :: rest => messages o ++ messagesOf rest

end

variable (h : HostText) (l : Language)

mutual

/-- **What is assembled from an outline** that begins with `i` tokens passed, when the first `m` tokens of the
source are in the tree already: the elements, and how many tokens are in the tree after them. -/
def laid (i m : Nat) : Outline → List PlacedTree × Nat
  | token _ => (h.stretch m (h.placeAt l i + 1), max m (h.placeAt l i + 1))
  | node kind parts =>
    let inside := laidAll i (max m (h.placeAt l i)) parts
    (h.stretch m (h.placeAt l i) ++ [.node kind inside.1], inside.2)
  | error _ parts =>
    let inside := laidAll i (max m (h.placeAt l i)) parts
    (h.stretch m (h.placeAt l i) ++ [.node .error inside.1], inside.2)

/-- What is assembled from several outlines. -/
def laidAll (i m : Nat) : List Outline → List PlacedTree × Nat
  | [] => ([], m)
  | o :: rest =>
    let first := laid i m o
    let others := laidAll (i + o.tokens.length) first.2 rest
    (first.1 ++ others.1, others.2)

end

/-- **What is to be said of the elements** `r.1` that are assembled when `n` tokens are passed. -/
structure Laid (i m n : Nat) (trees : List PlacedTree) (r : List PlacedTree × Nat) : Prop where
  /-- No token is taken out again. -/
  le : m ≤ r.2
  /-- The next tokens that are not trivia have been put in. -/
  fits : h.Fits l (i + n) r.2
  /-- All tokens have been put in, one after the other. -/
  tokens : PlacedTree.tokensOf r.1 = (h.placed.take r.2).drop m
  /-- Trivia apart, these are the elements. -/
  prune : PlacedTree.pruneAll l r.1 = trees

/-- Whether the tokens of the input are passed in order, from the `i`-th on. -/
def InOrder (i : Nat) (ts : List Token) : Prop :=
  ts.map Token.index = (List.range' i ts.length).map some

variable {h l} {i m n : Nat}

/-- Nothing is assembled from nothing. -/
theorem Laid.nil (hm : h.Fits l i m) : Laid h l i m 0 [] ([], m) where
  le := Nat.le_refl _
  fits := hm
  tokens := by simp [PlacedTree.tokensOf]
  prune := rfl

/-- Elements, and then others. -/
theorem Laid.append {k : Nat} {ts us : List PlacedTree} {r s : List PlacedTree × Nat}
    (hr : Laid h l i m n ts r) (hs : Laid h l (i + n) r.2 k us s) :
    Laid h l i m (n + k) (ts ++ us) (r.1 ++ s.1, s.2) where
  le := Nat.le_trans hr.le hs.le
  fits := by
    rw [← Nat.add_assoc]
    exact hs.fits
  tokens := by
    have hplaced : h.placed.length = h.tokens.length := HostText.length_placeFrom _ _ _
    rw [PlacedTree.tokensOf_append, hr.tokens, hs.tokens,
      HostText.drop_take_append hr.le hs.le (by rw [hplaced]; exact hs.fits.le)]
  prune := by rw [PlacedTree.pruneAll_append, hr.prune, hs.prune]

/-- A region with elements inside. -/
theorem Laid.region {kind : Kind} {ts : List PlacedTree} {r : List PlacedTree × Nat}
    (hm : h.Fits l i m) (hr : Laid h l i (h.placeAt l i) n ts r) :
    Laid h l i m n [.node kind ts] (h.stretch m (h.placeAt l i) ++ [.node kind r.1], r.2) where
  le := Nat.le_trans hm.le_placeAt hr.le
  fits := hr.fits
  tokens := by
    have hplaced : h.placed.length = h.tokens.length := HostText.length_placeFrom _ _ _
    rw [PlacedTree.tokensOf_append, HostText.stretch, PlacedTree.tokensOf_map_token]
    simp only [PlacedTree.tokensOf, PlacedTree.tokens, List.append_nil]
    rw [hr.tokens, HostText.drop_take_append hm.le_placeAt hr.le (by rw [hplaced]; exact hr.fits.le)]
  prune := by
    rw [PlacedTree.pruneAll_append, hm.prune_stretch]
    simp only [PlacedTree.pruneAll, PlacedTree.prune, List.append_nil, List.nil_append, hr.prune]

/-- Tokens that are passed in order come in two parts. -/
theorem inOrder_append {ts us : List Token} :
    InOrder i (ts ++ us) ↔ InOrder i ts ∧ InOrder (i + ts.length) us := by
  have hrange : List.range' i (ts ++ us).length =
      List.range' i ts.length ++ List.range' (i + ts.length) us.length := by
    rw [List.length_append, List.range'_append_1]
  unfold InOrder
  rw [hrange, List.map_append, List.map_append]
  constructor
  · intro heq
    exact List.append_inj heq (by simp)
  · rintro ⟨h1, h2⟩
    rw [h1, h2]

mutual

/-- **What is assembled from an outline** holds the tokens of the source in order, and without the trivia it is the
image of the outline. -/
theorem laid_laid : ∀ (o : Outline) (i m : Nat), h.Fits l i m → InOrder i o.tokens →
    i + o.tokens.length ≤ (h.significant l).length →
      -- by recursion on the outline: a token takes in the trivia before it, and a region begins after them
      Laid h l i m o.tokens.length (image (h.significant l) o) (laid h l i m o)
  | .token t, i, m, hm, hin, hlen => by
      have hi : i < (h.significant l).length := hlen
      have hget := List.getElem?_eq_getElem hi
      have hle := Nat.le_trans hm.le_placeAt (Nat.le_succ _)
      have hindex : t.index = some i := by
        simpa [InOrder, tokens] using hin
      have hmax : max m (h.placeAt l i + 1) = h.placeAt l i + 1 := Nat.max_eq_right hle
      rw [laid, hmax]
      refine ⟨hle, HostText.fits_placeAt_succ hi, ?_, ?_⟩
      · rw [HostText.stretch, PlacedTree.tokensOf_map_token]
      · rw [hm.prune_stretch_succ hget, image, hindex, Option.bind_some, hget]
        rfl
  | .node kind parts, i, m, hm, hin, hlen => by
      rw [laid, image, Nat.max_eq_right hm.le_placeAt]
      exact .region hm (laidAll_laid parts i _ (HostText.fits_placeAt i) hin hlen)
  | .error message parts, i, m, hm, hin, hlen => by
      rw [laid, image, Nat.max_eq_right hm.le_placeAt]
      exact .region hm (laidAll_laid parts i _ (HostText.fits_placeAt i) hin hlen)

/-- What is assembled from several outlines holds the tokens of the source in order, and without the trivia it is
their image. -/
theorem laidAll_laid : ∀ (os : List Outline) (i m : Nat), h.Fits l i m → InOrder i (tokensOf os) →
    i + (tokensOf os).length ≤ (h.significant l).length →
      Laid h l i m (tokensOf os).length (images (h.significant l) os) (laidAll h l i m os)
  | [], i, m, hm, _, _ => .nil hm
  | o :: rest, i, m, hm, hin, hlen => by
      rw [tokensOf, inOrder_append] at hin
      rw [tokensOf, List.length_append] at hlen ⊢
      have hfirst := laid_laid o i m hm hin.1 (by omega)
      exact hfirst.append (laidAll_laid rest _ _ hfirst.fits hin.2 (by omega))

end

end Outline

/-! ## The record of an outline -/

namespace Outline

open GreenBuilder (Event)

mutual

/-- **The record of an outline** that begins with `i` tokens passed, where `place` tells the places of tokens. -/
def events (place : Nat → Nat) (i : Nat) : Outline → List Event
  | token _ => [.token (place i)]
  | node kind parts => .opened i (some (.node kind)) :: (eventsOf place i parts ++ [.closed])
  | error message parts =>
    .opened i (some (.error message)) :: (eventsOf place i parts ++ [.closed])

/-- The record of several outlines. -/
def eventsOf (place : Nat → Nat) (i : Nat) : List Outline → List Event
  | [] => []
  | o :: rest => events place i o ++ eventsOf place (i + o.tokens.length) rest

end

end Outline

namespace GreenBuilder

/-- A builder with more in its record and some tokens passed. -/
def grown (b : GreenBuilder) (more : List Event) (n : Nat) : GreenBuilder :=
  { b with events := b.events ++ more.toArray, cursor.position := b.position + n }

@[simp] theorem grown_nil (b : GreenBuilder) : b.grown [] 0 = b := by simp [grown, position]

@[simp] theorem grown_grown (b : GreenBuilder) (es fs : List Event) (n k : Nat) :
    (b.grown es n).grown fs k = b.grown (es ++ fs) (n + k) := by
  simp [grown, position, Nat.add_assoc]

@[simp] theorem position_grown (b : GreenBuilder) (es : List Event) (n : Nat) :
    (b.grown es n).position = b.position + n := rfl

@[simp] theorem significantCount_grown (b : GreenBuilder) (es : List Event) (n : Nat) :
    (b.grown es n).significantCount = b.significantCount := rfl

/-- The places of tokens do not depend on the record. -/
@[simp] theorem placeAt_grown (b : GreenBuilder) (es : List Event) (n : Nat) :
    (b.grown es n).placeAt = b.placeAt := rfl

/-- Passing a token that is there. -/
theorem advance_of_lt {b : GreenBuilder} (h : b.position < b.significantCount) :
    b.advance = b.grown [.token (b.placeAt b.position)] 1 := by
  have hget : b.cursor.tokens[b.cursor.position]? = some b.cursor.tokens[b.cursor.position] :=
    Array.getElem?_eq_getElem h
  have hcurrent : b.cursor.current? = some b.cursor.tokens[b.cursor.position] := hget
  rw [advance, hcurrent]
  simp [grown, placeAt, position, hget, HostCursor.next]

/-- The closing of a region is entered where its opening stands. -/
theorem recordClosing_append (es more : Array Event) (i : Nat) (closing : Closing) :
    recordClosing (es.push (.opened i none) ++ more) es.size closing =
      es.push (.opened i (some closing)) ++ more := by
  have hmodify := fun f : Event → Event =>
    List.modifyTailIdx_add (List.modifyHead f) 0 es.toList (.opened i none :: more.toList)
  apply Array.ext'
  simp only [recordClosing, Array.toList_modify, Array.toList_append, Array.toList_push,
    List.append_assoc, List.singleton_append, ← Array.length_toList]
  exact hmodify _

/-- **A region with something inside.** -/
theorem close_mark {b b' : GreenBuilder} {more : List Event} {n : Nat} {closing : Closing}
    (h : (b.mark.2.grown more n).close b.mark.1 closing = .ok b') :
    b' = b.grown (.opened b.position (some closing) :: (more ++ [.closed])) n := by
  have hevents : recordClosing (b.events.push (.opened b.position none) ++ more.toArray)
      b.events.size closing = b.events.push (.opened b.position (some closing)) ++ more.toArray :=
    recordClosing_append _ _ _ _
  simp only [close, mark, grown, if_true, hevents] at h
  cases h
  simp [grown, position]

end GreenBuilder

namespace Outline

open GreenBuilder

mutual

/-- **Carrying out an outline on a green builder** adds its record. -/
theorem build_grown : ∀ {o : Outline} {b b' : GreenBuilder}, build o b = .ok b' →
    b.position + o.tokens.length ≤ b.significantCount →
      b' = b.grown (o.events b.placeAt b.position) o.tokens.length
  | .token t, b, b', h, hlen => by
      cases h
      exact advance_of_lt hlen
  | .node kind parts, b, b', h, hlen => by
      simp only [build, bind, Except.bind] at h
      split at h
      · cases h
      · rename_i b₁ hparts
        obtain rfl := builds_grown (b := b.mark.2) hparts hlen
        exact close_mark h
  | .error message parts, b, b', h, hlen => by
      simp only [build, bind, Except.bind] at h
      split at h
      · cases h
      · rename_i b₁ hparts
        obtain rfl := builds_grown (b := b.mark.2) hparts hlen
        exact close_mark h

/-- Carrying out several outlines on a green builder adds their records. -/
theorem builds_grown : ∀ {os : List Outline} {b b' : GreenBuilder}, builds os b = .ok b' →
    b.position + (tokensOf os).length ≤ b.significantCount →
      b' = b.grown (eventsOf b.placeAt b.position os) (tokensOf os).length
  | [], b, b', h, _ => by
      cases h
      simp [eventsOf, tokensOf]
  | o :: rest, b, b', h, hlen => by
      simp only [builds, bind, Except.bind] at h
      rw [tokensOf, List.length_append] at hlen
      split at h
      · cases h
      · rename_i b₁ ho
        obtain rfl := build_grown ho (by omega)
        have hrest := builds_grown h (by
          rw [position_grown, significantCount_grown]
          omega)
        rw [hrest, grown_grown, placeAt_grown, position_grown, eventsOf, tokensOf,
          List.length_append]

end

end Outline

/-! ## Assembling the tree -/

namespace GreenBuilder

variable {h : HostText} {l : Language} {b : GreenBuilder}

/-- **A builder over a source**, which it reads without the trivia of a language. -/
structure Over (h : HostText) (l : Language) (b : GreenBuilder) : Prop where
  /-- These are its tokens. -/
  tokens : b.tokens = h.tokens.toArray
  /-- The reader sees those that are not trivia. -/
  cursor : b.cursor.tokens = (h.significant l).toArray

/-- The places of tokens are those in the source. -/
theorem Over.placeAt_eq (hb : b.Over h l) : b.placeAt = h.placeAt l := by
  funext i
  simp [placeAt, HostText.placeAt, hb.tokens, hb.cursor]

namespace Assembly

variable {k : Kind} {cs : List GreenTree} {nodes : List (Kind × List GreenTree)}
  {outside : List GreenTree} {m place : Nat} {messages : List String}

/-- Tokens are put at the end of the innermost node. -/
theorem foldl_add_token (ts : List HostToken) :
    ts.foldl (fun (a : Assembly) t => a.add (.token t)) ⟨(k, cs) :: nodes, outside, m, messages⟩ =
      ⟨(k, (ts.map GreenTree.token).reverse ++ cs) :: nodes, outside, m, messages⟩ := by
  induction ts generalizing cs with
  | nil => rfl
  | cons t ts ih =>
      rw [List.foldl_cons, add, ih]
      simp

/-- **The tokens up to a place** are put at the end of the innermost node. -/
theorem emitUntil_eq : emitUntil h.tokens.toArray ⟨(k, cs) :: nodes, outside, m, messages⟩ place =
    ⟨(k, (PlacedTree.greens (h.stretch m place)).reverse ++ cs) :: nodes, outside, max m place,
      messages⟩ := by
  have htokens : (h.tokens.toArray.extract m place).toList =
      ((h.placed.take place).drop m).map PlacedToken.toHostToken := by
    rw [List.map_drop, List.map_take, HostText.placed, HostText.map_toHostToken_placeFrom,
      Array.toList_extract, List.extract_eq_take_drop, List.drop_take]
  rw [emitUntil, ← Array.foldl_toList, htokens, foldl_add_token, HostText.stretch,
    PlacedTree.greens_map_token, List.map_map]
  rfl

end Assembly

/-- The kind of a region that is closed in a way. -/
def Closing.kind : Closing → Kind
  | node kind => kind
  | error _ => .error

/-- The messages of a region that is closed in a way, with those before it. -/
def Closing.messages (ms : List String) : Closing → List String
  | node _ => ms
  | error message => message :: ms

/-- **The record of a region** puts a node at the end of the innermost one. -/
theorem foldlM_region (hb : b.Over h l) {es : List Event} {i m m' : Nat} {closing : Closing}
    {k : Kind} {cs inner : List GreenTree} {nodes : List (Kind × List GreenTree)}
    {outside : List GreenTree} {ms ms' : List String}
    (hinside : es.foldlM b.assemble ⟨(closing.kind, []) ::
        (k, (PlacedTree.greens (h.stretch m (h.placeAt l i))).reverse ++ cs) :: nodes, outside,
          max m (h.placeAt l i), closing.messages ms⟩ =
      .ok ⟨(closing.kind, inner.reverse ++ []) ::
        (k, (PlacedTree.greens (h.stretch m (h.placeAt l i))).reverse ++ cs) :: nodes, outside, m',
          ms'⟩) :
    (.opened i (some closing) :: (es ++ [.closed])).foldlM b.assemble
        ⟨(k, cs) :: nodes, outside, m, ms⟩ =
      .ok ⟨(k, .node closing.kind inner ::
        ((PlacedTree.greens (h.stretch m (h.placeAt l i))).reverse ++ cs)) :: nodes, outside, m',
          ms'⟩ := by
  have hopened : b.assemble ⟨(k, cs) :: nodes, outside, m, ms⟩ (.opened i (some closing)) =
      .ok ⟨(closing.kind, []) ::
        (k, (PlacedTree.greens (h.stretch m (h.placeAt l i))).reverse ++ cs) :: nodes, outside,
          max m (h.placeAt l i), closing.messages ms⟩ := by
    simp only [assemble, List.isEmpty_cons, Bool.false_eq_true, if_false, hb.tokens, hb.placeAt_eq,
      Assembly.emitUntil_eq]
    cases closing <;> rfl
  rw [List.foldlM_cons, hopened]
  simp only [bind, Except.bind, List.foldlM_append, hinside, List.foldlM_cons, List.foldlM_nil]
  simp [assemble, Assembly.finishNode, Assembly.add]
  rfl

mutual

/-- **Carrying out the record of an outline** puts its elements at the end of the innermost node. -/
theorem foldlM_events (hb : b.Over h l) : ∀ (o : Outline) (i m : Nat) (k : Kind)
    (cs : List GreenTree) (nodes : List (Kind × List GreenTree)) (outside : List GreenTree)
    (ms : List String),
    (o.events (h.placeAt l) i).foldlM b.assemble ⟨(k, cs) :: nodes, outside, m, ms⟩ =
      .ok ⟨(k, (PlacedTree.greens (o.laid h l i m).1).reverse ++ cs) :: nodes, outside,
        -- by recursion on the outline; a region is opened, holds what its parts add, and is closed
        (o.laid h l i m).2, o.messages.reverse ++ ms⟩
  | .token t, i, m, k, cs, nodes, outside, ms => by
      simp only [Outline.events, List.foldlM_cons, List.foldlM_nil, assemble, hb.tokens,
        Assembly.emitUntil_eq, Outline.laid, Outline.messages]
      rfl
  | .node kind parts, i, m, k, cs, nodes, outside, ms => by
      rw [Outline.events, foldlM_region hb (foldlM_eventsOf hb parts _ _ _ [] _ _ _)]
      simp [Outline.laid, Outline.messages, Closing.kind, Closing.messages, PlacedTree.greens,
        PlacedTree.green]
  | .error message parts, i, m, k, cs, nodes, outside, ms => by
      rw [Outline.events, foldlM_region hb (foldlM_eventsOf hb parts _ _ _ [] _ _ _)]
      simp [Outline.laid, Outline.messages, Closing.kind, Closing.messages, PlacedTree.greens,
        PlacedTree.green]

/-- Carrying out the records of several outlines puts their elements at the end of the innermost node. -/
theorem foldlM_eventsOf (hb : b.Over h l) : ∀ (os : List Outline) (i m : Nat) (k : Kind)
    (cs : List GreenTree) (nodes : List (Kind × List GreenTree)) (outside : List GreenTree)
    (ms : List String),
    (Outline.eventsOf (h.placeAt l) i os).foldlM b.assemble ⟨(k, cs) :: nodes, outside, m, ms⟩ =
      .ok ⟨(k, (PlacedTree.greens (Outline.laidAll h l i m os).1).reverse ++ cs) :: nodes, outside,
        (Outline.laidAll h l i m os).2, (Outline.messagesOf os).reverse ++ ms⟩
  | [], i, m, k, cs, nodes, outside, ms => rfl
  | o :: rest, i, m, k, cs, nodes, outside, ms => by
      have hfirst := foldlM_events hb o i m k cs nodes outside ms
      simp only [Outline.eventsOf, List.foldlM_append, hfirst, bind, Except.bind]
      rw [foldlM_eventsOf hb rest]
      simp [Outline.laidAll, Outline.messagesOf]

end

end GreenBuilder

/-! ## Error elements -/

/-- The error elements of several elements, in two parts. -/
theorem GreenTree.errorSpansOf_append (start : Nat) (ts us : List GreenTree) :
    errorSpansOf start (ts ++ us) =
      errorSpansOf start ts ++ errorSpansOf (start + lengths ts) us := by
  induction ts generalizing start with
  | nil => rfl
  | cons t ts ih =>
      rw [List.cons_append, errorSpansOf, errorSpansOf, ih, lengths, Nat.add_assoc,
        List.append_assoc]

namespace Outline

variable {h : HostText} {l : Language}

/-- An element at the end has its error elements among those of all. -/
theorem length_errorSpans_le (start : Nat) (ts : List GreenTree) (t : GreenTree) :
    (GreenTree.errorSpans (start + GreenTree.lengths ts) t).length ≤
      (GreenTree.errorSpansOf start (ts ++ [t])).length := by
  rw [GreenTree.errorSpansOf_append, List.length_append, GreenTree.errorSpansOf,
    GreenTree.errorSpansOf, List.append_nil]
  exact Nat.le_add_left _ _

mutual

/-- **There is an error element for each message.** -/
theorem length_messages_le : ∀ (o : Outline) (i m start : Nat), o.messages.length ≤
    (GreenTree.errorSpansOf start (PlacedTree.greens (laid h l i m o).1)).length
  | .token t, i, m, start => Nat.zero_le _
  | .node kind parts, i, m, start => by
      rw [laid, messages, PlacedTree.greens_append]
      refine Nat.le_trans ?_ (length_errorSpans_le _ _ _)
      have hinside := length_messagesOf_le parts i (max m (h.placeAt l i))
        (start + GreenTree.lengths (PlacedTree.greens (h.stretch m (h.placeAt l i))))
      rw [PlacedTree.green, GreenTree.errorSpans]
      split
      · exact Nat.le_succ_of_le hinside
      · exact hinside
  | .error message parts, i, m, start => by
      rw [laid, messages, PlacedTree.greens_append]
      refine Nat.le_trans ?_ (length_errorSpans_le _ _ _)
      have hinside := length_messagesOf_le parts i (max m (h.placeAt l i))
        (start + GreenTree.lengths (PlacedTree.greens (h.stretch m (h.placeAt l i))))
      rw [PlacedTree.green, GreenTree.errorSpans, if_pos rfl]
      exact Nat.succ_le_succ hinside

/-- There is an error element for each message of several outlines. -/
theorem length_messagesOf_le : ∀ (os : List Outline) (i m start : Nat), (messagesOf os).length ≤
    (GreenTree.errorSpansOf start (PlacedTree.greens (laidAll h l i m os).1)).length
  | [], i, m, start => Nat.zero_le _
  | o :: rest, i, m, start => by
      have hfirst := length_messages_le o i m start
      have hrest := length_messagesOf_le rest (i + o.tokens.length) (laid h l i m o).2
        (start + GreenTree.lengths (PlacedTree.greens (laid h l i m o).1))
      rw [laidAll, messagesOf, PlacedTree.greens_append, GreenTree.errorSpansOf_append,
        List.length_append, List.length_append]
      exact Nat.add_le_add hfirst hrest

end

end Outline

/-! ## Outlines without error elements -/

/-- Tokens on their own are no error elements. -/
theorem PlacedTree.errorSpansOf_map_token (start : Nat) (ts : List PlacedToken) :
    GreenTree.errorSpansOf start (greens (ts.map token)) = [] := by
  induction ts generalizing start with
  | nil => rfl
  | cons t ts ih =>
      rw [List.map_cons, greens, GreenTree.errorSpansOf, ih, green, GreenTree.errorSpans,
        List.append_nil]

namespace Outline

mutual

/-- **Nothing is closed as an error element**, nor as a node of that kind. -/
def Sound : Outline → Prop
  | token _ => True
  | node kind parts => kind ≠ .error ∧ SoundAll parts
  | error _ _ => False

/-- Nothing in several outlines is closed as an error element. -/
def SoundAll : List Outline → Prop
  | [] => True
  | o :: rest => Sound o ∧ SoundAll rest

end

theorem soundAll_append {os os' : List Outline} :
    SoundAll (os ++ os') ↔ SoundAll os ∧ SoundAll os' := by
  induction os with
  | nil => simp [SoundAll]
  | cons o os ih => rw [List.cons_append, SoundAll, SoundAll, ih, and_assoc]

/-- Tokens that are passed one after the other. -/
theorem soundAll_map_token (ts : List Token) : SoundAll (ts.map .token) := by
  induction ts with
  | nil => trivial
  | cons t ts ih => exact ⟨trivial, ih⟩

mutual

/-- What is assembled from a sound outline has no error elements. -/
theorem errorSpansOf_laid (h : HostText) (l : Language) : ∀ {o : Outline} (i m start : Nat),
    o.Sound → GreenTree.errorSpansOf start (PlacedTree.greens (laid h l i m o).1) = []
  | .token t, i, m, start, _ => by
      rw [laid]
      exact PlacedTree.errorSpansOf_map_token _ _
  | .node kind parts, i, m, start, hsound => by
      rw [laid, PlacedTree.greens_append, GreenTree.errorSpansOf_append, HostText.stretch,
        PlacedTree.errorSpansOf_map_token, List.nil_append, PlacedTree.greens, PlacedTree.greens,
        PlacedTree.green, GreenTree.errorSpansOf, GreenTree.errorSpansOf, List.append_nil,
        GreenTree.errorSpans, if_neg hsound.1]
      exact errorSpansOf_laidAll h l i _ _ hsound.2

/-- What is assembled from sound outlines has no error elements. -/
theorem errorSpansOf_laidAll (h : HostText) (l : Language) :
    ∀ {os : List Outline} (i m start : Nat), SoundAll os →
      GreenTree.errorSpansOf start (PlacedTree.greens (laidAll h l i m os).1) = []
  | [], _, _, _, _ => rfl
  | o :: rest, i, m, start, hsound => by
      rw [laidAll, PlacedTree.greens_append, GreenTree.errorSpansOf_append,
        errorSpansOf_laid h l i m start hsound.1, errorSpansOf_laidAll h l _ _ _ hsound.2,
        List.nil_append]

end

end Outline

/-! ## The finished tree -/

namespace GreenBuilder

variable {h : HostText} {l : Language} {root : Kind} {os : List Outline}

/-- **A region where no other one is open** becomes a node that takes in all that is left. -/
theorem foldlM_outer {b : GreenBuilder} (hb : b.Over h l) (closing : Closing) (os : List Outline) (i m : Nat)
    (outside : List GreenTree) (ms : List String) :
    (.opened i (some closing) :: (Outline.eventsOf (h.placeAt l) i os ++ [.closed])).foldlM b.assemble
        ⟨[], outside, m, ms⟩ =
      .ok ⟨[], .node closing.kind (PlacedTree.greens ((Outline.laidAll h l i m os).1 ++
          h.stretch (Outline.laidAll h l i m os).2 h.tokens.length)) :: outside,
        max (Outline.laidAll h l i m os).2 h.tokens.length,
        (Outline.messagesOf os).reverse ++ closing.messages ms⟩ := by
  have hinside := foldlM_eventsOf hb os i m closing.kind [] [] outside (closing.messages ms)
  have hopened : b.assemble ⟨[], outside, m, ms⟩ (.opened i (some closing)) =
      .ok ⟨[(closing.kind, [])], outside, m, closing.messages ms⟩ := by
    cases closing <;> rfl
  rw [List.foldlM_cons, hopened]
  simp only [bind, Except.bind, List.foldlM_append, hinside, List.foldlM_cons, List.foldlM_nil,
    assemble, List.length_singleton, if_true, hb.tokens, Assembly.emitUntil_eq]
  simp [Assembly.finishNode, Assembly.add]
  rfl

/-- **The root holds all tokens of the source**: those that are assembled from what is inside of it, and then
those that are left. -/
theorem tokensOf_root {n : Nat} {ts : List PlacedTree}
    (hlaid : Outline.Laid h l 0 0 n ts (Outline.laidAll h l 0 0 os)) :
    PlacedTree.tokensOf ((Outline.laidAll h l 0 0 os).1 ++
      h.stretch (Outline.laidAll h l 0 0 os).2 h.tokens.length) = h.placed := by
  have hplaced : h.placed.length = h.tokens.length := HostText.length_placeFrom _ _ _
  rw [PlacedTree.tokensOf_append, hlaid.tokens, HostText.stretch, PlacedTree.tokensOf_map_token,
    HostText.drop_take_append (Nat.zero_le _) hlaid.fits.le (Nat.le_of_eq hplaced.symm),
    ← hplaced, List.take_length, List.drop_zero]

/-- **The record of an outline under a root** becomes a tree. -/
theorem finish_of_build {b : GreenBuilder}
    (hbuild : Outline.build (.node root os) (ofText h l) = .ok b)
    (hlen : (Outline.tokensOf os).length = (h.significant l).length) :
    ∃ tree : HostTree, b.finish = .ok tree ∧
      tree.green = .node root (PlacedTree.greens ((Outline.laidAll h l 0 0 os).1 ++
        h.stretch (Outline.laidAll h l 0 0 os).2 h.tokens.length)) ∧
      tree.errors = ((tree.green.errorSpans 0).zip (Outline.messagesOf os)).map
        fun e => ⟨e.1, e.2⟩ := by
  -- what has been recorded are the events of the outline, from the first token on
  have hcount : (ofText h l).significantCount = (h.significant l).length := by
    simp [ofText, significantCount, HostCursor.ofText]
  have hover : (ofText h l).Over h l := ⟨rfl, rfl⟩
  have hgrown := Outline.build_grown hbuild (by
    rw [hcount, ← hlen]
    exact Nat.le_of_eq (Nat.zero_add _))
  have hb : b.Over h l := by
    rw [hgrown]
    exact ⟨rfl, rfl⟩
  have hevents : b.events.toList = (Outline.node root os).events (h.placeAt l) 0 := by
    rw [hgrown, ← hover.placeAt_eq]
    simp [grown, ofText, position, HostCursor.ofText]
  have hopen : b.openMarkers = [] := by
    rw [hgrown]
    rfl
  have hfold := foldlM_outer hb (.node root) os 0 0 [] []
  rw [← Outline.events, ← hevents, Array.foldlM_toList] at hfold
  simp only [Closing.kind, Closing.messages, List.append_nil] at hfold
  unfold finish
  rw [hopen, hfold]
  exact ⟨_, rfl, rfl, by rw [List.reverse_reverse]⟩

/-- The tree that the record of an outline under a root becomes. -/
theorem finish_eq {b : GreenBuilder} {tree : HostTree}
    (hbuild : Outline.build (.node root os) (ofText h l) = .ok b)
    (hfinish : b.finish = .ok tree)
    (hlen : (Outline.tokensOf os).length = (h.significant l).length) :
    tree.green = .node root (PlacedTree.greens ((Outline.laidAll h l 0 0 os).1 ++
        h.stretch (Outline.laidAll h l 0 0 os).2 h.tokens.length)) ∧
      tree.errors = ((tree.green.errorSpans 0).zip (Outline.messagesOf os)).map
        fun e => ⟨e.1, e.2⟩ := by
  obtain ⟨tree', hfinish', htree⟩ := finish_of_build hbuild hlen
  obtain rfl : tree' = tree := Except.ok.inj (hfinish'.symm.trans hfinish)
  exact htree

/-- **The tree that an outline under a root becomes**: it holds all tokens of the source in their places, without
the trivia it is the image of the outline, and its error elements are those of the outline, in order. -/
theorem finish_build {b : GreenBuilder} {tree : HostTree}
    (hbuild : Outline.build (.node root os) (ofText h l) = .ok b)
    (hfinish : b.finish = .ok tree) (hin : Outline.InOrder 0 (Outline.tokensOf os))
    (hlen : (Outline.tokensOf os).length = (h.significant l).length) :
    tree.placed.tokens = h.placed ∧
      tree.placed.prune l = [.node root (Outline.images (h.significant l) os)] ∧
      tree.errors.map ErrorElement.message = Outline.messagesOf os := by
  have hlaid := Outline.laidAll_laid os 0 0 ⟨Nat.zero_le _, by simp⟩ hin
    (Nat.le_of_eq ((Nat.zero_add _).trans hlen))
  obtain ⟨hgreen, herrors⟩ := finish_eq hbuild hfinish hlen
  -- what comes after the last region is trivia
  let inner := (Outline.laidAll h l 0 0 os).1 ++
    h.stretch (Outline.laidAll h l 0 0 os).2 h.tokens.length
  have htokens : PlacedTree.tokensOf inner = h.placed := tokensOf_root hlaid
  have hlast : h.placeAt l (h.significant l).length = h.tokens.length := by
    rw [HostText.placeAt, List.getElem?_eq_none (Nat.le_refl _)]
    rfl
  have hprune : PlacedTree.pruneAll l inner = Outline.images (h.significant l) os := by
    have hrest := hlaid.fits.prune_stretch
    rw [Nat.zero_add, hlen, hlast] at hrest
    rw [PlacedTree.pruneAll_append, hlaid.prune, hrest, List.append_nil]
  have htree : tree.placed = .node root inner := by
    rw [HostTree.placed, hgreen]
    exact PlacedTree.placed_green (t := .node root inner) htokens
  have hspans : (Outline.messagesOf os).length ≤ (tree.green.errorSpans 0).length := by
    have hinside := Outline.length_messagesOf_le (h := h) (l := l) os 0 0 0
    rw [hgreen, GreenTree.errorSpans, PlacedTree.greens_append, GreenTree.errorSpansOf_append]
    split <;> simp only [List.length_cons, List.length_append] <;> omega
  refine ⟨?_, ?_, ?_⟩
  · rw [htree]
    exact htokens
  · rw [htree, PlacedTree.prune, hprune]
  · rw [herrors, List.map_map]
    exact List.map_snd_zip hspans

/-- **A sound outline becomes a tree without error elements.** -/
theorem finish_sound {b : GreenBuilder} {tree : HostTree}
    (hbuild : Outline.build (.node root os) (ofText h l) = .ok b)
    (hfinish : b.finish = .ok tree)
    (hlen : (Outline.tokensOf os).length = (h.significant l).length) (hroot : root ≠ .error)
    (hsound : Outline.SoundAll os) : tree.green.errorSpans 0 = [] ∧ tree.errors = [] := by
  obtain ⟨hgreen, herrors⟩ := finish_eq hbuild hfinish hlen
  have hspans : tree.green.errorSpans 0 = [] := by
    rw [hgreen, GreenTree.errorSpans, if_neg hroot, PlacedTree.greens_append,
      GreenTree.errorSpansOf_append, Outline.errorSpansOf_laidAll h l _ _ _ hsound,
      List.nil_append]
    exact PlacedTree.errorSpansOf_map_token _ _
  rw [hspans] at herrors
  exact ⟨hspans, herrors⟩

end GreenBuilder

end TreeProjection
