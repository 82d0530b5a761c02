import Mathlib.Data.List.Induction
import TreeProjection.Diagnostic.Basic
import TreeProjection.Proofs.Layering

/-! # Diagnostics that are left out

Each line of an error element's message becomes a diagnostic, unless it repeats a diagnostic around it.  What counts as
around is told by spans alone.  In a finished tree that is the same as lying further in, as long as the element has any
text: two elements that are not inside each other share no bytes.  An element without text lies, by its span, also in
its neighbours.

* `GreenTree.errorNodes` — the error elements of a tree with the ways that lead to them.
* `GreenTree.errorNodes_apart` — one error element is inside another, or comes after its end.
* `HostTree.Nested`, `HostTree.Adjoins` — a line that is said further out, and one without text that is said before.
* `Diagnostic.ofTree_eq_lines` — those are the lines that are left out, and no others. -/

namespace TreeProjection

/-! ## Error elements and the ways to them -/

/-- An error element of a tree: the way that leads to it, by the numbers of children, and what it covers. -/
structure ErrorNode where
  /-- Which child is taken at each node on the way. -/
  path : List Nat
  /-- The stretch of the source that it covers. -/
  span : Span
  deriving DecidableEq, Repr

namespace ErrorNode

/-- The same element, seen from the parent. -/
def below (n : Nat) (a : ErrorNode) : ErrorNode := { a with path := n :: a.path }

/-- One element is inside another: the way to it leads through the other. -/
def Encloses (a b : ErrorNode) : Prop := a.path <+: b.path ∧ a.path ≠ b.path

instance (a b : ErrorNode) : Decidable (a.Encloses b) := inferInstanceAs (Decidable (_ ∧ _))

/-- Of two elements, the second is inside the first, or it is neither around it nor inside and begins after its
end. -/
def Apart (a b : ErrorNode) : Prop :=
  ¬ b.path <+: a.path ∧
    (a.path <+: b.path ∧ a.span.covers b.span = true ∨ ¬ a.path <+: b.path ∧ a.span.stop ≤ b.span.start)

variable {a b : ErrorNode} {n : Nat}

@[simp] theorem span_below : (a.below n).span = a.span := rfl

@[simp] theorem path_below : (a.below n).path = n :: a.path := rfl

/-- Seen from the parent, nothing changes between two elements. -/
theorem Apart.below (h : a.Apart b) : (a.below n).Apart (b.below n) := by
  simpa only [Apart, path_below, span_below, List.cons_prefix_cons, true_and] using h

/-- Elements under different children are not inside each other. -/
theorem apart_of_children {m m' : Nat} {p p' : List Nat} (ha : a.path = m :: p) (hb : b.path = m' :: p')
    (hne : m ≠ m') (h : a.span.stop ≤ b.span.start) : a.Apart b := by
  rw [Apart, ha, hb, List.cons_prefix_cons, List.cons_prefix_cons]
  exact ⟨fun hp => hne hp.1.symm, .inr ⟨fun hp => hne hp.1, h⟩⟩

/-- The later element is not around the earlier one. -/
theorem Apart.not_encloses (h : a.Apart b) : ¬ b.Encloses a := fun hb => h.1 hb.1

/-- What is inside is covered. -/
theorem Apart.covers (h : a.Apart b) (hab : a.Encloses b) : a.span.covers b.span = true :=
  h.2.elim (·.2) fun h => absurd hab.1 h.1

/-- **An element that covers a later one is around it**, unless the later one has no text. -/
theorem Apart.encloses_or_isEmpty (h : a.Apart b) (hab : a.span.covers b.span = true) :
    a.Encloses b ∨ b.span.isEmpty = true := by
  obtain ⟨hbelow, -⟩ | ⟨-, hle⟩ := h.2
  · exact .inl ⟨hbelow, fun he => h.1 (he ▸ List.prefix_refl _)⟩
  · simp only [Span.covers, Bool.and_eq_true, decide_eq_true_eq] at hab
    simp only [Span.isEmpty, beq_iff_eq]
    have hstop : b.span.start + b.span.length ≤ b.span.start := Nat.le_trans hab.2 hle
    omega

end ErrorNode

namespace GreenTree

mutual

/-- The error elements in an element that starts at an offset, each before those inside it. -/
def errorNodes (start : Nat) : GreenTree → List ErrorNode
  | token _ => []
  | node kind children =>
    let inside := errorNodesOf start 0 children
    if kind = .error then ⟨[], ⟨start, lengths children⟩⟩ :: inside else inside

/-- The error elements in several elements, the first of which starts at an offset and is the child with the given
number. -/
def errorNodesOf (start n : Nat) : List GreenTree → List ErrorNode
  | [] => []
  | t :: rest => (errorNodes start t).map (.below n) ++ errorNodesOf (start + length t) (n + 1) rest

end

mutual

/-- They have the spans of the error elements. -/
theorem map_span_errorNodes (start : Nat) :
    ∀ t : GreenTree, (t.errorNodes start).map ErrorNode.span = t.errorSpans start
  | .token _ => rfl
  | .node kind children => by
      have ih := map_span_errorNodesOf start 0 children
      rw [errorNodes, errorSpans]
      split
      · rw [List.map_cons, ih]
      · exact ih

theorem map_span_errorNodesOf (start n : Nat) :
    ∀ ts : List GreenTree, (errorNodesOf start n ts).map ErrorNode.span = errorSpansOf start ts
  | [] => rfl
  | t :: rest => by
      rw [errorNodesOf, errorSpansOf, List.map_append, List.map_map, ← map_span_errorNodes start t,
        ← map_span_errorNodesOf (start + length t) (n + 1) rest]
      rfl

end

mutual

/-- They lie in what the element covers. -/
theorem span_of_mem_errorNodes {a : ErrorNode} (start : Nat) :
    ∀ t : GreenTree, a ∈ t.errorNodes start → start ≤ a.span.start ∧ a.span.stop ≤ start + t.length
  | .token _, h => by cases h
  | .node kind children, h => by
      have ih := span_of_mem_errorNodesOf (a := a) start 0 children
      rw [errorNodes] at h
      rw [length]
      split at h
      · obtain rfl | h := List.mem_cons.mp h
        · exact ⟨Nat.le_refl _, Nat.le_refl _⟩
        · exact (ih h).2
      · exact (ih h).2

/-- Below a child from the given number on, they lie in what the elements cover. -/
theorem span_of_mem_errorNodesOf {a : ErrorNode} (start n : Nat) :
    ∀ ts : List GreenTree, a ∈ errorNodesOf start n ts →
      (∃ m p, n ≤ m ∧ a.path = m :: p) ∧ start ≤ a.span.start ∧ a.span.stop ≤ start + lengths ts
  | [], h => by cases h
  | t :: rest, h => by
      rw [errorNodesOf, List.mem_append, List.mem_map] at h
      rw [lengths]
      obtain ⟨a, ha, rfl⟩ | ha := h
      · have hspan := span_of_mem_errorNodes start t ha
        exact ⟨⟨n, a.path, Nat.le_refl n, rfl⟩, hspan.1, Nat.le_trans hspan.2 (by omega)⟩
      · obtain ⟨⟨m, p, hm, hp⟩, hspan⟩ := span_of_mem_errorNodesOf (start + length t) (n + 1) rest ha
        exact ⟨⟨m, p, by omega, hp⟩, by omega, by omega⟩

end

mutual

/-- **Of two error elements of a tree, the second is inside the first or begins after its end.** -/
theorem errorNodes_apart (start : Nat) : ∀ t : GreenTree, (t.errorNodes start).Pairwise ErrorNode.Apart
  | .token _ => .nil
  | .node kind children => by
      have ih := errorNodesOf_apart start 0 children
      rw [errorNodes]
      split
      · refine .cons (fun b hb => ?_) ih
        obtain ⟨⟨m, p, -, hp⟩, hstart, hstop⟩ := span_of_mem_errorNodesOf start 0 children hb
        refine ⟨by simp [hp], .inl ⟨List.nil_prefix, ?_⟩⟩
        simpa [Span.covers] using ⟨hstart, hstop⟩
      · exact ih

theorem errorNodesOf_apart (start n : Nat) :
    ∀ ts : List GreenTree, (errorNodesOf start n ts).Pairwise ErrorNode.Apart
  | [] => .nil
  | t :: rest => by
      rw [errorNodesOf, List.pairwise_append]
      refine ⟨List.pairwise_map.mpr ((errorNodes_apart start t).imp ErrorNode.Apart.below),
        errorNodesOf_apart _ _ rest, fun a ha b hb => ?_⟩
      -- the rest starts where this child ends
      obtain ⟨a', ha', rfl⟩ := List.mem_map.mp ha
      obtain ⟨⟨m, p, hm, hp⟩, hstart, -⟩ := span_of_mem_errorNodesOf _ (n + 1) rest hb
      have hspan := span_of_mem_errorNodes start t ha'
      exact ErrorNode.apart_of_children rfl hp (by omega) (Nat.le_trans hspan.2 hstart)

end

end GreenTree

/-! ## Lines of the messages -/

/-- A line of the message of an error element. -/
structure MessageLine where
  /-- Which of the error elements it is. -/
  element : Nat
  /-- Which line of the message it is. -/
  place : Nat
  /-- What the element covers. -/
  span : Span
  /-- The line. -/
  text : String
  deriving DecidableEq, Repr

namespace MessageLine

/-- The line as a diagnostic of its own. -/
def diagnostic (l : MessageLine) : Diagnostic := ⟨l.span, l.text⟩

/-- Lines of one element in order, elements in order. -/
def Before (l' l : MessageLine) : Prop := l'.element < l.element ∨ l'.element = l.element ∧ l'.place < l.place

instance (l' l : MessageLine) : Decidable (l'.Before l) := inferInstanceAs (Decidable (_ ∨ _))

/-- One line says the same as another, whose span is around its own. -/
def Repeats (l l' : MessageLine) : Prop := l'.text = l.text ∧ l'.span.covers l.span = true

instance (l l' : MessageLine) : Decidable (l.Repeats l') := inferInstanceAs (Decidable (_ ∧ _))

variable {l l' l'' : MessageLine} {ls : List MessageLine}

/-- The order goes one way only. -/
theorem Before.asymm (h : l'.Before l) : ¬ l.Before l' := by
  simp only [Before] at h ⊢
  omega

/-- A line repeats itself. -/
theorem repeats_refl (l : MessageLine) : l.Repeats l := ⟨rfl, l.span.covers_self⟩

/-- What repeats a repetition repeats what that one repeats. -/
theorem Repeats.trans (h : l.Repeats l') (h' : l'.Repeats l'') : l.Repeats l'' := by
  refine ⟨h'.1.trans h.1, ?_⟩
  have hc := h.2
  have hc' := h'.2
  simp only [Span.covers, Bool.and_eq_true, decide_eq_true_eq] at hc hc' ⊢
  exact ⟨Nat.le_trans hc'.1 hc.1, Nat.le_trans hc.2 hc'.2⟩

/-- The lines that repeat no line before them. -/
def firsts (ls : List MessageLine) : List MessageLine :=
  ls.filter fun l => ¬ ∃ l' ∈ ls, l'.Before l ∧ l.Repeats l'

/-- A line at the end is a first one if it repeats none of the others. -/
theorem firsts_append_singleton (h : (ls ++ [l]).Pairwise Before) :
    firsts (ls ++ [l]) = firsts ls ++ if ∃ l' ∈ ls, l.Repeats l' then [] else [l] := by
  have hbefore : ∀ l' ∈ ls, l'.Before l := by simpa using (List.pairwise_append.mp h).2.2
  rw [firsts, List.filter_append]
  congr 1
  · -- a line at the end is before none of the others
    refine List.filter_congr fun m hm => ?_
    have hlast : ¬ l.Before m := (hbefore m hm).asymm
    simp [List.mem_append, or_and_right, exists_or, hlast]
  · have hself : ¬ l.Before l := fun h => h.asymm h
    have hmem : (∃ l' ∈ ls ++ [l], l'.Before l ∧ l.Repeats l') ↔ ∃ l' ∈ ls, l.Repeats l' := by
      constructor
      · rintro ⟨l', hl', hb, hr⟩
        obtain hl' | hl' := List.mem_append.mp hl'
        · exact ⟨l', hl', hr⟩
        · cases List.mem_singleton.mp hl'
          exact absurd hb hself
      · rintro ⟨l', hl', hr⟩
        exact ⟨l', List.mem_append_left _ hl', hbefore l' hl', hr⟩
    by_cases hrepeats : ∃ l' ∈ ls, l.Repeats l'
    · rw [if_pos hrepeats, List.filter_cons_of_neg (by simpa only [hmem, decide_eq_true_eq, not_not] using hrepeats), List.filter_nil]
    · rw [if_neg hrepeats, List.filter_cons_of_pos (by simpa only [hmem, decide_eq_true_eq] using hrepeats), List.filter_nil]

/-- Every line repeats a first one, perhaps itself. -/
theorem exists_mem_firsts (h : ls.Pairwise Before) (hl : l ∈ ls) : ∃ l' ∈ firsts ls, l.Repeats l' := by
  induction ls using List.reverseRecOn generalizing l with
  | nil => cases hl
  | append_singleton ls last ih =>
      have hls := (List.pairwise_append.mp h).1
      rw [firsts_append_singleton h]
      obtain hl | hl := List.mem_append.mp hl
      · obtain ⟨l', hl', hr⟩ := ih hls hl
        exact ⟨l', List.mem_append_left _ hl', hr⟩
      · obtain rfl := List.mem_singleton.mp hl
        by_cases hrepeats : ∃ l' ∈ ls, l.Repeats l'
        · obtain ⟨l', hl', hr⟩ := hrepeats
          obtain ⟨l'', hl'', hr'⟩ := ih hls hl'
          exact ⟨l'', List.mem_append_left _ hl'', hr.trans hr'⟩
        · exact ⟨l, by simp [hrepeats], l.repeats_refl⟩

/-- A line's message is repeated in a list of diagnostics if the line repeats one that is behind them. -/
theorem repeats_map_diagnostic (ls : List MessageLine) (l : MessageLine) :
    Diagnostic.repeats (ls.map diagnostic) l.span l.text = true ↔ ∃ l' ∈ ls, l.Repeats l' := by
  simp [Diagnostic.repeats, diagnostic, Repeats]

/-- **Adding lines one after the other keeps the first ones.** -/
theorem foldl_addLine (h : ls.Pairwise Before) :
    ls.foldl (fun ds l => Diagnostic.addLine l.span ds l.text) [] = (firsts ls).map diagnostic := by
  induction ls using List.reverseRecOn with
  | nil => rfl
  | append_singleton ls l ih =>
      have hls := (List.pairwise_append.mp h).1
      -- a first one stands for every line so far
      have hfirst : (∃ l' ∈ firsts ls, l.Repeats l') ↔ ∃ l' ∈ ls, l.Repeats l' := by
        constructor
        · rintro ⟨l', hl', hr⟩
          exact ⟨l', (List.mem_filter.mp hl').1, hr⟩
        · rintro ⟨l', hl', hr⟩
          obtain ⟨l'', hl'', hr'⟩ := exists_mem_firsts hls hl'
          exact ⟨l'', hl'', hr.trans hr'⟩
      rw [List.foldl_append, ih hls, firsts_append_singleton h, List.foldl_cons, List.foldl_nil,
        Diagnostic.addLine]
      simp only [repeats_map_diagnostic, hfirst]
      split
      · rw [List.append_nil]
      · rw [List.map_append]
        rfl

end MessageLine

/-! ## The lines of a tree -/

namespace HostTree

/-- The lines of all messages in order. -/
def messageLines (t : HostTree) : List MessageLine :=
  t.errors.zipIdx.flatMap fun (e, i) => (Text.lines e.message).zipIdx.map fun (text, k) => ⟨i, k, e.span, text⟩

/-- The error elements with the ways to them. -/
def errorNodes (t : HostTree) : List ErrorNode := t.green.errorNodes 0

/-- One error element is inside another, by their numbers. -/
def Encloses (t : HostTree) (i j : Nat) : Prop :=
  ∃ a ∈ t.errorNodes[i]?, ∃ b ∈ t.errorNodes[j]?, a.Encloses b

instance (t : HostTree) (i j : Nat) : Decidable (t.Encloses i j) :=
  inferInstanceAs (Decidable (∃ a ∈ t.errorNodes[i]?, ∃ b ∈ t.errorNodes[j]?, a.Encloses b))

/-- **The line is said further out**, by an error element around its own, or before it in the same message. -/
def Nested (t : HostTree) (l : MessageLine) : Prop :=
  ∃ l' ∈ t.messageLines, l'.text = l.text ∧
    (t.Encloses l'.element l.element ∨ l'.element = l.element ∧ l'.place < l.place)

instance (t : HostTree) (l : MessageLine) : Decidable (t.Nested l) :=
  inferInstanceAs (Decidable (∃ l' ∈ t.messageLines, l'.text = l.text ∧
    (t.Encloses l'.element l.element ∨ l'.element = l.element ∧ l'.place < l.place)))

/-- **The line's element has no text, and the line is said before** by an element that ends there, or begins there, or
covers the place. -/
def Adjoins (t : HostTree) (l : MessageLine) : Prop :=
  l.span.isEmpty = true ∧ ∃ l' ∈ t.messageLines, l'.element < l.element ∧ l.Repeats l'

instance (t : HostTree) (l : MessageLine) : Decidable (t.Adjoins l) :=
  inferInstanceAs (Decidable (_ ∧ ∃ l' ∈ t.messageLines, l'.element < l.element ∧ l.Repeats l'))

variable {t : HostTree} {l l' : MessageLine}

/-- A line of a tree belongs to the error element with its number. -/
theorem errors_of_mem_messageLines (h : l ∈ t.messageLines) :
    ∃ e, t.errors[l.element]? = some e ∧ e.span = l.span := by
  obtain ⟨⟨e, i⟩, he, hl⟩ := List.mem_flatMap.mp h
  obtain ⟨⟨text, k⟩, -, rfl⟩ := List.mem_map.mp hl
  exact ⟨e, List.mem_zipIdx_iff_getElem?.mp he, rfl⟩

/-- Places rise along an enumeration. -/
theorem pairwise_zipIdx {α : Type} (xs : List α) : xs.zipIdx.Pairwise fun a b => a.2 < b.2 := by
  rw [← List.pairwise_map (f := Prod.snd), List.zipIdx_map_snd]
  exact List.pairwise_lt_range'

/-- The lines are in order. -/
theorem pairwise_messageLines (t : HostTree) : t.messageLines.Pairwise MessageLine.Before := by
  refine List.pairwise_flatMap.mpr ⟨fun ⟨e, i⟩ _ => ?_, (pairwise_zipIdx _).imp fun {a b} h => ?_⟩
  · exact List.pairwise_map.mpr ((pairwise_zipIdx _).imp fun h => .inr ⟨rfl, h⟩)
  · intro l hl l' hl'
    obtain ⟨-, -, rfl⟩ := List.mem_map.mp hl
    obtain ⟨-, -, rfl⟩ := List.mem_map.mp hl'
    exact .inl h

/-- The diagnostics of a tree come about line by line. -/
theorem ofTree_eq_foldl (t : HostTree) :
    Diagnostic.ofTree t = t.messageLines.foldl (fun ds l => Diagnostic.addLine l.span ds l.text) [] := by
  have hlines (e : ErrorElement) (i : Nat) (ds : List Diagnostic) :
      ((Text.lines e.message).zipIdx.map fun (text, k) => (⟨i, k, e.span, text⟩ : MessageLine)).foldl
        (fun ds l => Diagnostic.addLine l.span ds l.text) ds = Diagnostic.addElement ds e := by
    rw [List.foldl_map, Diagnostic.addElement]
    conv_rhs => rw [← List.zipIdx_map_fst 0 (Text.lines e.message), List.foldl_map]
  rw [messageLines, List.foldl_flatMap]
  simp only [hlines]
  rw [Diagnostic.ofTree, Diagnostic.ofElements]
  conv_lhs => rw [← List.zipIdx_map_fst 0 t.errors, List.foldl_map]

end HostTree

/-! ## Finished trees -/

variable {b : GreenBuilder} {t : HostTree} {l l' : MessageLine}

/-- A finished tree lists the error elements with their spans, as far as there are messages. -/
theorem GreenBuilder.finish_errors (h : b.finish = .ok t) :
    ∃ ms : List String, t.errors = ((t.green.errorSpans 0).zip ms).map fun e => ⟨e.1, e.2⟩ := by
  unfold finish at h
  simp only [bind, Except.bind, throw, throwThe, MonadExceptOf.throw] at h
  split at h
  · split at h
    · cases h
    · split at h
      · cases h
        exact ⟨_, rfl⟩
      · cases h
  · cases h

namespace HostTree

/-- The elements that two lines of a finished tree belong to. -/
theorem exists_errorNodes (h : b.finish = .ok t) (hl : l ∈ t.messageLines) :
    ∃ a, t.errorNodes[l.element]? = some a ∧ a.span = l.span := by
  obtain ⟨e, he, hspan⟩ := errors_of_mem_messageLines hl
  obtain ⟨ms, hms⟩ := GreenBuilder.finish_errors h
  rw [hms, ← GreenTree.map_span_errorNodes, List.getElem?_map, Option.map_eq_some_iff] at he
  obtain ⟨⟨span, message⟩, he, rfl⟩ := he
  obtain ⟨hs, -⟩ := List.getElem?_zip_eq_some.mp he
  rw [List.getElem?_map, Option.map_eq_some_iff] at hs
  obtain ⟨a, ha, rfl⟩ := hs
  exact ⟨a, ha, hspan⟩

/-- Two error elements of a tree are apart. -/
theorem apart_of_lt {i j : Nat} {a b : ErrorNode} (ha : t.errorNodes[i]? = some a)
    (hb : t.errorNodes[j]? = some b) (h : i < j) : a.Apart b := by
  obtain ⟨hi, rfl⟩ := List.getElem?_eq_some_iff.mp ha
  obtain ⟨hj, rfl⟩ := List.getElem?_eq_some_iff.mp hb
  exact List.pairwise_iff_getElem.mp (GreenTree.errorNodes_apart 0 t.green) i j hi hj h

/-- An error element is listed before what is inside it. -/
theorem Encloses.lt {i j : Nat} (h : t.Encloses i j) : i < j := by
  obtain ⟨a, ha, b, hb, hab⟩ := h
  obtain hlt | heq | hgt := Nat.lt_trichotomy i j
  · exact hlt
  · subst heq
    cases ha.symm.trans hb
    exact absurd rfl hab.2
  · exact absurd hab (apart_of_lt hb ha hgt).not_encloses

/-- **What a line of a finished tree repeats**: it is nested in it, or adjoins it without any text. -/
theorem exists_repeats_iff (h : b.finish = .ok t) (hl : l ∈ t.messageLines) :
    (∃ l' ∈ t.messageLines, l'.Before l ∧ l.Repeats l') ↔ t.Nested l ∨ t.Adjoins l := by
  obtain ⟨a, ha, haspan⟩ := exists_errorNodes h hl
  constructor
  · rintro ⟨l', hl', hlt | ⟨heq, hplace⟩, hr⟩
    · obtain ⟨a', ha', haspan'⟩ := exists_errorNodes h hl'
      have hcovers : a'.span.covers a.span = true := by
        rw [haspan, haspan']
        exact hr.2
      obtain hin | hempty := (apart_of_lt ha' ha hlt).encloses_or_isEmpty hcovers
      · exact .inl ⟨l', hl', hr.1, .inl ⟨a', ha', a, ha, hin⟩⟩
      · exact .inr ⟨haspan ▸ hempty, l', hl', hlt, hr⟩
    · exact .inl ⟨l', hl', hr.1, .inr ⟨heq, hplace⟩⟩
  · rintro (⟨l', hl', htext, henc | ⟨heq, hplace⟩⟩ | ⟨-, l', hl', hlt, hr⟩)
    · obtain ⟨a', ha', haspan'⟩ := exists_errorNodes h hl'
      have hin : a'.Encloses a := by
        obtain ⟨x, hx, y, hy, hxy⟩ := henc
        cases ha'.symm.trans hx
        cases ha.symm.trans hy
        exact hxy
      have hcovers := (apart_of_lt ha' ha henc.lt).covers hin
      rw [haspan, haspan'] at hcovers
      exact ⟨l', hl', .inl henc.lt, htext, hcovers⟩
    · obtain ⟨a', ha', haspan'⟩ := exists_errorNodes h hl'
      have hspan : l'.span = l.span := by
        rw [heq, ha] at ha'
        rw [← haspan', ← haspan, Option.some.inj ha']
      exact ⟨l', hl', .inr ⟨heq, hplace⟩, htext, hspan ▸ l'.span.covers_self⟩
    · exact ⟨l', hl', .inl hlt, hr⟩

end HostTree

/-- **The diagnostics of a finished tree are the lines of the messages of its error elements**, in order and with the
spans of the elements.  Left out are the lines that an error element around theirs says, or the same one before, and
besides them no lines but those of elements without text that repeat an element beside them. -/
theorem Diagnostic.ofTree_eq_lines (h : b.finish = .ok t) :
    Diagnostic.ofTree t =
      (t.messageLines.filter fun l => ¬ (t.Nested l ∨ t.Adjoins l)).map MessageLine.diagnostic := by
  rw [t.ofTree_eq_foldl, MessageLine.foldl_addLine t.pairwise_messageLines, MessageLine.firsts]
  congr 1
  refine List.filter_congr fun l hl => ?_
  rw [decide_eq_decide, HostTree.exists_repeats_iff h hl]

/-! ## Elements side by side -/

namespace Triples

/-- A language of one token type and two rules. -/
def language : Language where
  name := "triples"
  vocabulary := .ofNames [none, some "'x'"] [none, some "X"]
  rules := #[("triple", ⟨0⟩), ("item", ⟨1⟩)]
  elements := ⟨2, 2⟩

/-- The second rule matches an `X`. -/
def item (follow : TokenSet) : Recognizer Unit :=
  .within follow fun _ => .asRule ⟨1⟩ fun _ => .expect ⟨1⟩ ∅

/-- The first rule invokes the second one three times. -/
def grammar : Grammar where
  language := language
  entry _ _ := .asRule ⟨0⟩ fun _ =>
    (item (.single ⟨1⟩)).bind fun _ => (item (.single ⟨1⟩)).bind fun _ => item ∅

/-- What is run over the tokens of a source. -/
def project (tokens : List HostToken) : Projection HostTree :=
  let host : Supervised GreenBuilder := { builder := .ofText ⟨tokens, ""⟩ language, elements := language.elements }
  (({} : Session).project grammar ⟨0⟩ .file host).1

/-- An error element around another with the same message, and one beside it that says a line twice. -/
theorem ofTree_eq_lines_call : ∃ (b : GreenBuilder) (t : HostTree), b.finish = .ok t ∧
    t.messageLines.map MessageLine.text = ["no item", "no item", "late", "late"] ∧
    Diagnostic.ofTree t = [⟨⟨0, 1⟩, "no item"⟩, ⟨⟨1, 0⟩, "late"⟩] ∧
    Diagnostic.ofTree t =
      (t.messageLines.filter fun l => ¬ (t.Nested l ∨ t.Adjoins l)).map MessageLine.diagnostic := by
  have hrun : ∃ b, BuilderCall.runAll (GreenBuilder.ofText ⟨[⟨3, "x"⟩], ""⟩ language)
      [.mark, .mark, .mark, .advance, .error 2 "no item", .error 1 "no item", .mark,
        .error 6 "late\nlate", .done 0 .file] = .ok b ∧ ∃ t, b.finish = .ok t ∧
      t.messageLines.map MessageLine.text = ["no item", "no item", "late", "late"] ∧
        Diagnostic.ofTree t = [⟨⟨0, 1⟩, "no item"⟩, ⟨⟨1, 0⟩, "late"⟩] := by decide +kernel
  obtain ⟨b, -, t, hfinish, hlines, hdiagnostics⟩ := hrun
  exact ⟨b, t, hfinish, hlines, hdiagnostics, Diagnostic.ofTree_eq_lines hfinish⟩

/-- **A line that is not said further out may be left out.** At the end of the input all three items are missing.  The
message of the first one is on the element around the token and on that of the token.  The second and the third are
side by side, neither has any text, and of the third nothing is told. -/
theorem project_leaves_out : ∃ t, (project []).outcome = .ok t ∧
    Diagnostic.ofTree t =
      [⟨.emptyAt 0, "mismatched input '<EOF>' expecting 'x'"⟩, ⟨.emptyAt 0, "syntax error"⟩] ∧
    (t.messageLines.filter fun l => ¬ t.Nested l).map MessageLine.diagnostic =
      [⟨.emptyAt 0, "mismatched input '<EOF>' expecting 'x'"⟩, ⟨.emptyAt 0, "syntax error"⟩,
        ⟨.emptyAt 0, "syntax error"⟩] := by
  decide +kernel

end Triples

end TreeProjection
