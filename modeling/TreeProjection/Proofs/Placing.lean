import Mathlib.Algebra.GroupWithZero.Nat
import TreeProjection.Host.Token
import TreeProjection.Host.Tree

/-! # Places of tokens in a host tree

The tokens of a source are laid end to end, so the places of the tokens in a host tree follow from the texts before
them.  The tokens that are not trivia have places of their own among all tokens, and between them there are only
trivia.

* `PlacedTree` — a host tree with the places of its tokens; `PlacedTree.prune` takes the trivia out.
* `PlacedTree.placed_green` — a tree whose tokens are laid end to end has the places that are counted in it.
* `HostText.placeAt` — the places of the tokens that are not trivia.
* `HostText.Fits` — how many tokens there are before such a place. -/

namespace TreeProjection

/-! ## Trees with the places of their tokens -/

/-- An element of a host tree with the places of its tokens. -/
inductive PlacedTree where
  /-- A token. -/
  | token (t : PlacedToken)
  /-- A node over further elements. -/
  | node (kind : Kind) (children : List PlacedTree)
  deriving Repr

namespace GreenTree

mutual

/-- An element with the places of its tokens, when its first token comes after `place` others and stands at the
offset `start`. -/
def placed (place start : Nat) : GreenTree → PlacedTree
  | token t => .token ⟨t, place, start⟩
  | node kind children => .node kind (placedAll place start children)

/-- Several elements with the places of their tokens. -/
def placedAll (place start : Nat) : List GreenTree → List PlacedTree
  | [] => []
  | t :: rest => placed place start t ::
      placedAll (place + t.tokens.length) (start + t.length) rest

end

end GreenTree

namespace GreenTree

mutual

/-- **An element without the trivia** of a language; nothing is left of a token that is one. -/
def prune (l : Language) : GreenTree → List GreenTree
  | token t => if l.isTrivia t.kind then [] else [.token t]
  | node kind children => [.node kind (pruneAll l children)]

/-- Several elements without the trivia. -/
def pruneAll (l : Language) : List GreenTree → List GreenTree
  | [] => []
  | t :: rest => prune l t ++ pruneAll l rest

end

end GreenTree

/-- A finished tree with the places of its tokens. -/
def HostTree.placed (t : HostTree) : PlacedTree := t.green.placed 0 0

namespace PlacedTree

mutual

/-- The tree without the places. -/
def green : PlacedTree → GreenTree
  | token t => .token t.toHostToken
  | node kind children => .node kind (greens children)

/-- Several trees without the places. -/
def greens : List PlacedTree → List GreenTree
  | [] => []
  | t :: rest => green t :: greens rest

end

mutual

/-- The tokens in order. -/
def tokens : PlacedTree → List PlacedToken
  | token t => [t]
  | node _ children => tokensOf children

/-- The tokens of several trees in order. -/
def tokensOf : List PlacedTree → List PlacedToken
  | [] => []
  | t :: rest => tokens t ++ tokensOf rest

end

mutual

/-- **A tree without the trivia** of a language; nothing is left of a token that is one. -/
def prune (l : Language) : PlacedTree → List PlacedTree
  | token t => if l.isTrivia t.kind then [] else [token t]
  | node kind children => [node kind (pruneAll l children)]

/-- Several trees without the trivia. -/
def pruneAll (l : Language) : List PlacedTree → List PlacedTree
  | [] => []
  | t :: rest => prune l t ++ pruneAll l rest

end

@[simp] theorem greens_append (ts us : List PlacedTree) :
    greens (ts ++ us) = greens ts ++ greens us := by
  induction ts with
  | nil => rfl
  | cons t ts ih => simp [greens, ih]

@[simp] theorem tokensOf_append (ts us : List PlacedTree) :
    tokensOf (ts ++ us) = tokensOf ts ++ tokensOf us := by
  induction ts with
  | nil => rfl
  | cons t ts ih => simp [tokensOf, ih]

@[simp] theorem pruneAll_append (l : Language) (ts us : List PlacedTree) :
    pruneAll l (ts ++ us) = pruneAll l ts ++ pruneAll l us := by
  induction ts with
  | nil => rfl
  | cons t ts ih => simp [pruneAll, ih]

@[simp] theorem greens_map_token (ts : List PlacedToken) :
    greens (ts.map token) = ts.map fun t => .token t.toHostToken := by
  induction ts with
  | nil => rfl
  | cons t ts ih => simp [greens, green, ih]

@[simp] theorem tokensOf_map_token (ts : List PlacedToken) : tokensOf (ts.map token) = ts := by
  induction ts with
  | nil => rfl
  | cons t ts ih => simp [tokensOf, tokens, ih]

@[simp] theorem pruneAll_map_token (l : Language) (ts : List PlacedToken) :
    pruneAll l (ts.map token) = (ts.filter fun t => !l.isTrivia t.kind).map token := by
  induction ts with
  | nil => rfl
  | cons t ts ih =>
      rw [List.map_cons, pruneAll, prune, ih]
      by_cases h : l.isTrivia t.kind = true
      · simp [h]
      · simp [h]

mutual

/-- Places that are put in can be left out again. -/
theorem green_placed (place start : Nat) : ∀ t : GreenTree, (t.placed place start).green = t
  | .token _ => rfl
  | .node kind children => congrArg (GreenTree.node kind) (greens_placedAll place start children)

/-- Places that are put into several elements can be left out again. -/
theorem greens_placedAll (place start : Nat) : ∀ ts : List GreenTree,
    greens (GreenTree.placedAll place start ts) = ts
  | [] => rfl
  | t :: rest => by rw [GreenTree.placedAll, greens, green_placed place start t, greens_placedAll _ _ rest]

end

mutual

/-- The trivia can be taken out with the places or without them. -/
theorem greens_prune (l : Language) : ∀ t : PlacedTree, greens (prune l t) = t.green.prune l
  | token t => by
      rw [prune, green, GreenTree.prune]
      split <;> rfl
  | node kind children => by
      rw [prune, green, GreenTree.prune, greens, greens, green, greens_pruneAll l children]

/-- The trivia can be taken out of several trees with the places or without them. -/
theorem greens_pruneAll (l : Language) : ∀ ts : List PlacedTree,
    greens (pruneAll l ts) = GreenTree.pruneAll l (greens ts)
  | [] => rfl
  | t :: rest => by
      rw [pruneAll, greens_append, greens_prune l t, greens_pruneAll l rest, greens, GreenTree.pruneAll]

end

mutual

/-- Without the places, the tokens are the same. -/
theorem tokens_green : ∀ t : PlacedTree, t.green.tokens = t.tokens.map PlacedToken.toHostToken
  | token _ => rfl
  | node _ children => tokensOf_greens children

/-- Without the places, the tokens are the same. -/
theorem tokensOf_greens : ∀ ts : List PlacedTree,
    GreenTree.tokensOf (greens ts) = (tokensOf ts).map PlacedToken.toHostToken
  | [] => rfl
  | t :: rest => by
      rw [greens, GreenTree.tokensOf, tokensOf, List.map_append, tokens_green t,
        tokensOf_greens rest]

end

end PlacedTree

/-- A finished tree without the trivia. -/
theorem HostTree.prune_green (l : Language) (t : HostTree) :
    t.green.prune l = PlacedTree.greens (t.placed.prune l) := by
  rw [PlacedTree.greens_prune, placed, PlacedTree.green_placed]

/-! ## Tokens laid end to end -/

namespace HostText

/-- The length of several tokens in bytes. -/
def lengthOf (ts : List HostToken) : Nat := (ts.map fun t => t.text.utf8ByteSize).sum

/-- Tokens that are laid after others. -/
theorem placeFrom_append (place start : Nat) (ts us : List HostToken) :
    placeFrom place start (ts ++ us) = placeFrom place start ts ++
      placeFrom (place + ts.length) (start + lengthOf ts) us := by
  induction ts generalizing place start with
  | nil => rfl
  | cons t ts ih =>
      simp only [List.cons_append, placeFrom, ih, List.length_cons, lengthOf, List.map_cons,
        List.sum_cons]
      congr 3 <;> omega

@[simp] theorem map_toHostToken_placeFrom (place start : Nat) (ts : List HostToken) :
    (placeFrom place start ts).map PlacedToken.toHostToken = ts := by
  induction ts generalizing place start with
  | nil => rfl
  | cons t ts ih => simp [placeFrom, ih]

@[simp] theorem length_placeFrom (place start : Nat) (ts : List HostToken) :
    (placeFrom place start ts).length = ts.length := by
  rw [← List.length_map PlacedToken.toHostToken, map_toHostToken_placeFrom]

/-- A token that has been laid is known by its place. -/
theorem place_of_getElem? {place start i : Nat} {ts : List HostToken} {t : PlacedToken}
    (h : (placeFrom place start ts)[i]? = some t) : t.place = place + i := by
  induction ts generalizing place start i with
  | nil => cases h
  | cons u ts ih =>
      cases i with
      | zero =>
          cases h
          rfl
      | succ i =>
          rw [placeFrom, List.getElem?_cons_succ] at h
          rw [ih h]
          omega

/-- A token that has been laid lies among the bytes of all. -/
theorem start_of_mem_placeFrom {place start : Nat} {ts : List HostToken} {t : PlacedToken}
    (h : t ∈ placeFrom place start ts) :
    start ≤ t.start ∧ t.start + t.text.utf8ByteSize ≤ start + lengthOf ts := by
  induction ts generalizing place start with
  | nil => cases h
  | cons u ts ih =>
      rw [lengthOf, List.map_cons, List.sum_cons, ← lengthOf]
      rcases List.mem_cons.mp h with rfl | h
      · refine ⟨Nat.le_refl _, ?_⟩
        rw [← Nat.add_assoc]
        exact Nat.le_add_right _ _
      · have hbounds := ih h
        omega

/-- **No token begins before those before it have ended.** -/
theorem pairwise_placeFrom {place start : Nat} {ts : List HostToken} :
    (placeFrom place start ts).Pairwise fun t u => t.start + t.text.utf8ByteSize ≤ u.start := by
  induction ts generalizing place start with
  | nil => exact .nil
  | cons t ts ih => exact .cons (fun u hu => (start_of_mem_placeFrom hu).1) ih

/-- The length of a source is that of its tokens and the text after them. -/
theorem length_eq (h : HostText) : h.length = lengthOf h.tokens + h.rest.utf8ByteSize := by
  rw [length, lengthOf, List.sum_eq_foldl, List.foldl_map]

end HostText

mutual

/-- The length of an element is that of its tokens. -/
theorem GreenTree.lengthOf_tokens : ∀ t : GreenTree, HostText.lengthOf t.tokens = t.length
  | .token t => by simp [HostText.lengthOf, tokens, length]
  | .node _ children => lengthOf_tokensOf children

/-- The length of several elements is that of their tokens. -/
theorem GreenTree.lengthOf_tokensOf : ∀ ts : List GreenTree,
    HostText.lengthOf (tokensOf ts) = lengths ts
  | [] => rfl
  | t :: rest => by
      have ht := lengthOf_tokens t
      have hrest := lengthOf_tokensOf rest
      simp only [HostText.lengthOf, tokensOf, lengths, List.map_append, List.sum_append] at ht hrest ⊢
      rw [ht, hrest]

end

namespace PlacedTree

mutual

/-- **The places follow from the tokens**: a tree whose tokens are laid end to end has the places that are
counted in it. -/
theorem placed_green : ∀ {t : PlacedTree} {place start : Nat} {ts : List HostToken},
    t.tokens = HostText.placeFrom place start ts → t.green.placed place start = t
  | token t, place, start, ts, h => by
      match ts, h with
      | [u], h =>
          cases h
          rfl
      | [], h => cases h
      | _ :: _ :: _, h => cases h
  | node kind children, place, start, ts, h => by
      rw [green, GreenTree.placed, placedAll_greens h]

/-- Trees whose tokens are laid end to end have the places that are counted in them. -/
theorem placedAll_greens : ∀ {us : List PlacedTree} {place start : Nat} {ts : List HostToken},
    tokensOf us = HostText.placeFrom place start ts →
      GreenTree.placedAll place start (greens us) = us
  | [], _, _, _, _ => rfl
  | u :: us, place, start, ts, h => by
      have hlen : u.tokens.length ≤ ts.length := by
        rw [← HostText.length_placeFrom place start ts, ← h, tokensOf, List.length_append]
        omega
      have hsplit := HostText.placeFrom_append place start (ts.take u.tokens.length)
        (ts.drop u.tokens.length)
      rw [List.take_append_drop, ← h, tokensOf] at hsplit
      have hparts := List.append_inj hsplit (by
        rw [HostText.length_placeFrom, List.length_take, Nat.min_eq_left hlen])
      have htokens : u.green.tokens = ts.take u.tokens.length :=
        (tokens_green u).trans ((congrArg (List.map PlacedToken.toHostToken) hparts.1).trans
          (HostText.map_toHostToken_placeFrom _ _ _))
      rw [greens, GreenTree.placedAll, placed_green hparts.1, ← GreenTree.lengthOf_tokens, htokens,
        placedAll_greens hparts.2]

end

end PlacedTree

/-! ## The tokens that are not trivia -/

namespace HostText

variable (h : HostText) (l : Language)

/-- The place of a token that is not trivia; after the last one, the number of all tokens. -/
def placeAt (i : Nat) : Nat :=
  ((h.significant l)[i]?.map PlacedToken.place).getD h.tokens.length

variable {h l}

/-- Where a list holds the `i`-th of the elements that are filtered out of it. -/
theorem exists_take_filter {α : Type} {p : α → Bool} {xs : List α} {i : Nat} {a : α}
    (ha : (xs.filter p)[i]? = some a) :
    ∃ k, xs[k]? = some a ∧ (xs.take k).filter p = (xs.filter p).take i := by
  -- induction on the list; an element that is filtered out counts in the place but not in the number
  induction xs generalizing i with
  | nil => cases ha
  | cons x xs ih =>
      by_cases hx : p x = true
      · rw [List.filter_cons_of_pos hx] at ha ⊢
        cases i with
        | zero =>
            cases ha
            exact ⟨0, rfl, rfl⟩
        | succ i =>
            obtain ⟨k, hk, htake⟩ := ih ha
            refine ⟨k + 1, hk, ?_⟩
            rw [List.take_succ_cons, List.filter_cons_of_pos hx, htake, List.take_succ_cons]
      · rw [List.filter_cons_of_neg hx] at ha ⊢
        obtain ⟨k, hk, htake⟩ := ih ha
        refine ⟨k + 1, hk, ?_⟩
        rw [List.take_succ_cons, List.filter_cons_of_neg hx, htake]

/-- A token that is not trivia stands at its place among all tokens. -/
theorem getElem?_placeAt {i : Nat} {t : PlacedToken} (ht : (h.significant l)[i]? = some t) :
    h.placeAt l i = t.place ∧ h.placed[t.place]? = some t ∧
      (h.placed.take t.place).filter (fun t => !l.isTrivia t.kind) =
        (h.significant l).take i := by
  obtain ⟨k, hk, htake⟩ := exists_take_filter ht
  have hplace : t.place = k := by
    rw [place_of_getElem? hk, Nat.zero_add]
  rw [hplace]
  refine ⟨?_, hk, htake⟩
  rw [placeAt, ht, ← hplace]
  rfl

/-- **The tokens before the place of a token that is not trivia** are those before it, and trivia. -/
theorem filter_take_placeAt (i : Nat) :
    (h.placed.take (h.placeAt l i)).filter (fun t => !l.isTrivia t.kind) =
      (h.significant l).take i := by
  cases ht : (h.significant l)[i]? with
  | some t =>
      obtain ⟨hplace, -, htake⟩ := getElem?_placeAt ht
      rw [hplace, htake]
  | none =>
      have hlen : (h.significant l).length ≤ i := List.getElem?_eq_none_iff.mp ht
      have hall : h.placed.length ≤ h.placeAt l i := by
        rw [placeAt, ht, placed, length_placeFrom]
        exact Nat.le_refl _
      rw [List.take_of_length_le hall, List.take_of_length_le hlen]
      rfl

/-- There are no more places than tokens. -/
theorem placeAt_le (i : Nat) : h.placeAt l i ≤ h.tokens.length := by
  cases ht : (h.significant l)[i]? with
  | some t =>
      obtain ⟨hplace, hget, -⟩ := getElem?_placeAt ht
      have hlt := (List.getElem?_eq_some_iff.mp hget).1
      rw [placed, length_placeFrom] at hlt
      omega
  | none =>
      rw [placeAt, ht]
      exact Nat.le_refl _

/-- The tokens up to a token that is not trivia, and that one. -/
theorem filter_take_placeAt_succ {i : Nat} {t : PlacedToken}
    (ht : (h.significant l)[i]? = some t) :
    (h.placed.take (h.placeAt l i + 1)).filter (fun t => !l.isTrivia t.kind) =
      (h.significant l).take (i + 1) := by
  obtain ⟨hplace, hget, -⟩ := getElem?_placeAt ht
  have hmem : t ∈ h.significant l := List.mem_of_getElem? ht
  have hkind : (!l.isTrivia t.kind) = true := (List.mem_filter.mp hmem).2
  rw [List.take_add_one, List.filter_append, filter_take_placeAt, List.take_add_one, ht, hplace,
    hget]
  simp [hkind]

variable (h l)

/-- **The first `m` tokens hold the first `i` that are not trivia**, and no others. -/
structure Fits (i m : Nat) : Prop where
  /-- There are as many tokens. -/
  le : m ≤ h.tokens.length
  /-- Those that are not trivia. -/
  filter : (h.placed.take m).filter (fun t => !l.isTrivia t.kind) = (h.significant l).take i

/-- The tokens from one place up to another, each as an element of its own. -/
def stretch (m k : Nat) : List PlacedTree := ((h.placed.take k).drop m).map .token

variable {h l} {i m k : Nat}

/-- The tokens before the place of a token that is not trivia. -/
theorem fits_placeAt (i : Nat) : h.Fits l i (h.placeAt l i) :=
  ⟨placeAt_le i, filter_take_placeAt i⟩

/-- The tokens up to a token that is not trivia. -/
theorem fits_placeAt_succ (hi : i < (h.significant l).length) :
    h.Fits l (i + 1) (h.placeAt l i + 1) := by
  have ht := List.getElem?_eq_getElem hi
  obtain ⟨hplace, hget, -⟩ := getElem?_placeAt ht
  have hlt := (List.getElem?_eq_some_iff.mp hget).1
  rw [placed, length_placeFrom] at hlt
  exact ⟨by omega, filter_take_placeAt_succ ht⟩

/-- What is filtered out of the tokens up to a place, in two parts. -/
theorem filter_take_of_le (hmk : m ≤ k) :
    (h.placed.take k).filter (fun t => !l.isTrivia t.kind) =
      (h.placed.take m).filter (fun t => !l.isTrivia t.kind) ++
        ((h.placed.take k).drop m).filter (fun t => !l.isTrivia t.kind) := by
  have hsplit := List.take_append_drop m (h.placed.take k)
  rw [List.take_take, Nat.min_eq_left hmk] at hsplit
  rw [← List.filter_append, hsplit]

/-- The next token that is not trivia is still to come. -/
theorem Fits.le_placeAt (hm : h.Fits l i m) : m ≤ h.placeAt l i := by
  cases ht : (h.significant l)[i]? with
  | some t =>
      refine Nat.le_of_not_lt fun hlt => ?_
      have hparts := filter_take_of_le (h := h) (l := l) hlt
      rw [hm.filter, filter_take_placeAt_succ ht] at hparts
      have hlen := congrArg List.length hparts
      have hi := (List.getElem?_eq_some_iff.mp ht).1
      rw [List.length_append, List.length_take, List.length_take] at hlen
      omega
  | none =>
      rw [placeAt, ht]
      exact hm.le

/-- Only trivia come before the next token that is not trivia. -/
theorem Fits.prune_stretch (hm : h.Fits l i m) :
    PlacedTree.pruneAll l (h.stretch m (h.placeAt l i)) = [] := by
  have hparts := filter_take_of_le (h := h) (l := l) hm.le_placeAt
  rw [hm.filter, filter_take_placeAt, List.self_eq_append_right] at hparts
  rw [stretch, PlacedTree.pruneAll_map_token, hparts]
  rfl

/-- Up to the next token that is not trivia there is none but that one. -/
theorem Fits.prune_stretch_succ (hm : h.Fits l i m) {t : PlacedToken}
    (ht : (h.significant l)[i]? = some t) :
    PlacedTree.pruneAll l (h.stretch m (h.placeAt l i + 1)) = [.token t] := by
  have hparts := filter_take_of_le (h := h) (l := l)
    (Nat.le_trans hm.le_placeAt (Nat.le_succ _))
  rw [hm.filter, filter_take_placeAt_succ ht, List.take_add_one, ht, List.append_cancel_left_eq]
    at hparts
  rw [stretch, PlacedTree.pruneAll_map_token, ← hparts]
  rfl

/-- The elements between places, in two parts. -/
theorem drop_take_append {α : Type} {n : Nat} {xs : List α} (hmk : m ≤ k) (hkn : k ≤ n)
    (hn : n ≤ xs.length) :
    (xs.take k).drop m ++ (xs.take n).drop k = (xs.take n).drop m := by
  have hsplit := List.take_append_drop k (xs.take n)
  rw [List.take_take, Nat.min_eq_left hkn] at hsplit
  have hlen : (xs.take k).length = k := List.length_take_of_le (Nat.le_trans hkn hn)
  calc (xs.take k).drop m ++ (xs.take n).drop k
      = (xs.take k ++ (xs.take n).drop k).drop m := by
        rw [List.drop_append, hlen, Nat.sub_eq_zero_of_le hmk, List.drop_zero]
    _ = (xs.take n).drop m := by rw [hsplit]

end HostText

end TreeProjection
