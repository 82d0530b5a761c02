import Mathlib.Data.List.Infix
import Mathlib.Data.List.Pairwise
import TreeProjection.Host.Green
import TreeProjection.Projection.Session
import TreeProjection.Query.Basic

/-! # The innermost node around a stretch

The search for the innermost node around a stretch of the source goes down from the root, each time into the first
child that is a node around the stretch, and never comes back.  Children do not overlap, so around a stretch with text
there is one child at most, and the search meets every node that is around it.  An empty stretch lies in both children
where one ends and the other begins.  Then the search goes into the first, however little there is below it.

* `Located.surrounds`, `Located.contested` — nodes around a stretch, and nodes that leave a choice where to go on.
* `Query.Innermost` — what the search finds.
* `Query.enclosing_deepest` — as long as there is no choice, it finds the deepest node.
* `Border.enclosing_misses_deeper` — where there is one, it may miss it. -/

namespace TreeProjection

namespace Located

variable {region : Span} {x y c : Located}

/-! ## An element and those below it -/

/-- Elements side by side and those below them are each element and those below it. -/
theorem preorders_eq_flatMap (path : List Nat) (start i : Nat) (ts : List GreenTree) :
    GreenTree.preorders path start i ts = (sideBySide path start i ts).flatMap preorder := by
  induction ts generalizing start i with
  | nil => rfl
  | cons t ts ih => rw [GreenTree.preorders, sideBySide, List.flatMap_cons, ih, preorder]

/-- An element comes first, and then its children with those below them. -/
theorem preorder_eq_cons (x : Located) : x.preorder = x :: x.children.flatMap preorder := by
  obtain ⟨element, start, path⟩ := x
  cases element with
  | token t => rfl
  | node kind children => rw [preorder, GreenTree.preorder, preorders_eq_flatMap, Located.children, GreenTree.children]

/-- What is at an element or below it is the element, or is at a child or below it. -/
theorem mem_preorder_iff : y ∈ x.preorder ↔ y = x ∨ ∃ c ∈ x.children, y ∈ c.preorder := by
  rw [preorder_eq_cons, List.mem_cons, List.mem_flatMap]

theorem mem_preorder_self (x : Located) : x ∈ x.preorder := mem_preorder_iff.mpr (.inl rfl)

/-- There are fewer elements at a child and below it. -/
theorem length_preorder_lt (hc : c ∈ x.children) : c.preorder.length < x.preorder.length := by
  rw [preorder_eq_cons x, List.length_cons, Nat.lt_succ_iff]
  exact (List.sublist_flatten_of_mem (List.mem_map_of_mem hc)).length_le

/-- **Going down a tree**: what holds of an element when it holds of its children holds of every element. -/
theorem inductionDown {P : Located → Prop} (step : ∀ x, (∀ c ∈ x.children, P c) → P x) (x : Located) : P x :=
  step x fun c _ => inductionDown step c
termination_by x.preorder.length
decreasing_by exact length_preorder_lt ‹_›

/-! ## Ways and spans -/

/-- A way of two parts is followed one part after the other. -/
theorem follow?_append (x : Located) (way rest : List Nat) :
    x.follow? (way ++ rest) = (x.follow? way).bind fun y => y.follow? rest := by
  induction way generalizing x with
  | nil => rfl
  | cons i way ih =>
      rw [List.cons_append, follow?, follow?, Option.bind_assoc]
      exact congrArg _ (funext ih)

/-- An element of several side by side is at the place that the last step of its way says. -/
theorem exists_getElem?_sideBySide {path : List Nat} {start i : Nat} {ts : List GreenTree}
    (hc : c ∈ sideBySide path start i ts) :
    ∃ k, (sideBySide path start i ts)[k]? = some c ∧ c.path = path ++ [i + k] := by
  induction ts generalizing start i with
  | nil => cases hc
  | cons t ts ih =>
      rcases List.mem_cons.mp hc with rfl | hc
      · exact ⟨0, rfl, rfl⟩
      · obtain ⟨k, hk, hpath⟩ := ih hc
        exact ⟨k + 1, by rw [sideBySide, List.getElem?_cons_succ, hk], by rw [hpath, Nat.succ_add_eq_add_succ]⟩

/-- **The way to an element leads to it**, from every element above it. -/
theorem exists_follow?_eq (hy : y ∈ x.preorder) : ∃ way, y.path = x.path ++ way ∧ x.follow? way = some y := by
  induction x using inductionDown with
  | step x ih =>
      rcases mem_preorder_iff.mp hy with rfl | ⟨c, hc, hy⟩
      · exact ⟨[], (List.append_nil _).symm, rfl⟩
      · obtain ⟨k, hk, hpath⟩ := exists_getElem?_sideBySide hc
        obtain ⟨way, hway, hfollow⟩ := ih c hc hy
        rw [Nat.zero_add] at hpath
        refine ⟨k :: way, by rw [hway, hpath, List.append_assoc, List.singleton_append], ?_⟩
        rw [follow?, children, hk, Option.bind_some, hfollow]

/-- The way to an element below another goes through that one. -/
theorem path_prefix (hy : y ∈ x.preorder) : x.path <+: y.path := by
  obtain ⟨way, hway, -⟩ := exists_follow?_eq hy
  exact ⟨way, hway.symm⟩

/-- Elements side by side lie between where the first starts and where the last ends. -/
theorem bounds_sideBySide {path : List Nat} {start i : Nat} {ts : List GreenTree}
    (hc : c ∈ sideBySide path start i ts) :
    start ≤ c.span.start ∧ c.span.stop ≤ start + GreenTree.lengths ts := by
  induction ts generalizing start i with
  | nil => cases hc
  | cons t ts ih =>
      rcases List.mem_cons.mp hc with rfl | hc
      · simp only [span, Span.stop, GreenTree.lengths]
        omega
      · have hbounds := ih hc
        rw [GreenTree.lengths]
        omega

/-- **Elements side by side do not overlap.** -/
theorem pairwise_sideBySide (path : List Nat) (start i : Nat) (ts : List GreenTree) :
    (sideBySide path start i ts).Pairwise fun a b => a.span.stop ≤ b.span.start := by
  induction ts generalizing start i with
  | nil => exact .nil
  | cons t ts ih => exact .cons (fun b hb => (bounds_sideBySide hb).1) (ih _ _)

/-- Two children of an element do not overlap. -/
theorem apart_of_mem_children {u v : Located} (hu : u ∈ x.children) (hv : v ∈ x.children) (hne : u ≠ v) :
    u.span.stop ≤ v.span.start ∨ v.span.stop ≤ u.span.start := by
  have hpairwise : x.children.Pairwise fun u v => u.span.stop ≤ v.span.start ∨ v.span.stop ≤ u.span.start :=
    (pairwise_sideBySide x.path x.start 0 x.element.children).imp Or.inl
  have : Std.Symm fun u v : Located => u.span.stop ≤ v.span.start ∨ v.span.stop ≤ u.span.start :=
    ⟨fun _ _ => Or.symm⟩
  exact hpairwise.forall hu hv hne

/-- Only a node has children. -/
theorem isNode_of_mem_children (hc : c ∈ x.children) : x.isNode = true := by
  obtain ⟨element, start, path⟩ := x
  cases element with
  | token t => cases hc
  | node kind children => rfl

/-- Where a way goes on, there is a node. -/
theorem isNode_of_follow? {i : Nat} {way : List Nat} (h : x.follow? (i :: way) = some y) : x.isNode = true := by
  rw [follow?] at h
  obtain ⟨c, hc, -⟩ := Option.bind_eq_some_iff.mp h
  exact isNode_of_mem_children (List.mem_of_getElem? hc)

/-- An element is as long as its children are together, if it has any. -/
theorem lengths_children_le (t : GreenTree) : GreenTree.lengths t.children ≤ t.length := by
  cases t with
  | token t => exact Nat.zero_le _
  | node kind children => exact Nat.le_refl _

/-- **An element covers those below it.** -/
theorem covers_of_mem_preorder (hy : y ∈ x.preorder) : x.span.covers y.span = true := by
  induction x using inductionDown with
  | step x ih =>
      rcases mem_preorder_iff.mp hy with rfl | ⟨c, hc, hy⟩
      · exact Span.covers_self _
      · have hbelow := ih c hc hy
        have hbounds := bounds_sideBySide hc
        have hlengths := lengths_children_le x.element
        simp only [Span.covers, Bool.and_eq_true, decide_eq_true_eq] at hbelow ⊢
        simp only [span, Span.stop] at hbelow hbounds ⊢
        omega

/-! ## Nodes around a stretch -/

/-- Whether an element is a node around a stretch of the source. -/
def surrounds (region : Span) (x : Located) : Bool := x.isNode && x.span.covers region

/-- **An element leaves a choice** if two of its children are nodes around the stretch. -/
def Contested (region : Span) (x : Located) : Prop :=
  ∃ u ∈ x.children, ∃ v ∈ x.children, u ≠ v ∧ u.surrounds region = true ∧ v.surrounds region = true

/-- If a node is around the stretch, then so are those around the node. -/
theorem surrounds_of_mem_preorder (hy : y ∈ x.preorder) (hregion : y.surrounds region = true) :
    x.surrounds region = true := by
  have hspan := covers_of_mem_preorder hy
  have hnode : x.isNode = true := by
    rcases mem_preorder_iff.mp hy with rfl | ⟨c, hc, -⟩
    · exact (Bool.and_eq_true_iff.mp hregion).1
    · exact isNode_of_mem_children hc
  have hcovers := (Bool.and_eq_true_iff.mp hregion).2
  simp only [surrounds, hnode, Bool.true_and, Span.covers, Bool.and_eq_true, decide_eq_true_eq] at hspan hcovers ⊢
  omega

/-- **A stretch with text leaves no choice.** -/
theorem not_contested (hregion : region.start < region.stop) : ¬ x.Contested region := by
  rintro ⟨u, hu, v, hv, hne, hur, hvr⟩
  have hapart := apart_of_mem_children hu hv hne
  simp only [surrounds, Span.covers, Bool.and_eq_true, decide_eq_true_eq] at hur hvr
  omega

end Located

namespace Query

variable {region : Span} {x d : Located}

/-! ## What the search finds -/

/-- **What the search finds below a node**: a node around the stretch with none below it, and every node around the
stretch is on the way to it, as long as there is no choice. -/
structure Innermost (region : Span) (x d : Located) : Prop where
  /-- It is at the node or below it. -/
  mem : d ∈ x.preorder
  /-- It is around the stretch. -/
  surrounds : d.surrounds region = true
  /-- Nothing below it is around the stretch. -/
  last : ∀ y ∈ d.preorder, y.surrounds region = true → y = d
  /-- Every node around the stretch is on the way to it, as long as there is no choice. -/
  onTheWay : (∀ p ∈ x.preorder, ¬ p.Contested region) →
    ∀ y ∈ x.preorder, y.surrounds region = true → d ∈ y.preorder

/-- If none of the children is around the stretch, the node itself is innermost. -/
theorem Innermost.here (hx : x.surrounds region = true)
    (hnone : ∀ c ∈ x.children, ¬ c.surrounds region = true) : Innermost region x x := by
  have hlast : ∀ y ∈ x.preorder, y.surrounds region = true → y = x := by
    intro y hy hregion
    rcases Located.mem_preorder_iff.mp hy with rfl | ⟨c, hc, hy⟩
    · rfl
    · exact absurd (Located.surrounds_of_mem_preorder hy hregion) (hnone c hc)
  refine ⟨x.mem_preorder_self, hx, hlast, fun _ y hy hregion => ?_⟩
  rw [hlast y hy hregion]
  exact x.mem_preorder_self

/-- What is innermost in a child around the stretch is so in the node. -/
theorem Innermost.up {c : Located} (hd : Innermost region c d) (hc : c ∈ x.children)
    (hregion : c.surrounds region = true) : Innermost region x d := by
  have hmem : d ∈ x.preorder := Located.mem_preorder_iff.mpr (.inr ⟨c, hc, hd.mem⟩)
  refine ⟨hmem, hd.surrounds, hd.last, fun hchoice y hy hyregion => ?_⟩
  rcases Located.mem_preorder_iff.mp hy with rfl | ⟨c', hc', hy⟩
  · exact hmem
  · -- another child around the stretch would leave a choice
    have hsame : c' = c := by
      by_contra hne
      exact hchoice x x.mem_preorder_self
        ⟨c', hc', c, hc, hne, Located.surrounds_of_mem_preorder hy hyregion, hregion⟩
    rw [hsame] at hy
    refine hd.onTheWay (fun p hp => hchoice p ?_) y hy hyregion
    exact Located.mem_preorder_iff.mpr (.inr ⟨c, hc, hp⟩)

/-- **The search finds the innermost node**, given as many steps as there are elements. -/
theorem descend_innermost {fuel : Nat} (hx : x.surrounds region = true) (hfuel : x.preorder.length ≤ fuel) :
    Innermost region x (descend region fuel x) := by
  induction fuel generalizing x with
  | zero =>
      rw [Located.preorder_eq_cons] at hfuel
      cases hfuel
  | succ fuel ih =>
      rw [descend]
      cases hfind : x.children.find? fun child => child.isNode && child.span.covers region with
      | none => exact .here hx (List.find?_eq_none.mp hfind)
      | some c =>
          have hc := List.mem_of_find?_eq_some hfind
          have hregion : c.surrounds region = true := List.find?_some hfind
          have hless := Located.length_preorder_lt hc
          exact (ih hregion (by omega)).up hc hregion

/-- The nodes of a tree are the elements from the root on that are nodes. -/
theorem mem_nodes_iff {q : Query} : x ∈ q.nodes ↔ x ∈ q.root.preorder ∧ x.isNode = true := List.mem_filter

/-- Whether the search finds anything depends on the root alone. -/
theorem enclosing_eq_none_iff (q : Query) (start stop : Nat) :
    q.enclosing? start stop = none ↔ stop < start ∨ q.tree.green.length < stop := by
  have hroot : q.root.span.covers (.between start stop) = true ↔ start + (stop - start) ≤ q.tree.green.length := by
    simp [Span.covers, Span.between, Span.stop, root, Located.span]
  rw [enclosing?]
  by_cases hsides : stop < start
  · simp [hsides]
  · simp only [hsides, if_false, false_or]
    split
    · rename_i hcovers
      have hle := hroot.mp hcovers
      simp only [reduceCtorEq, false_iff]
      omega
    · rename_i hcovers
      have hlt := mt hroot.mpr hcovers
      simp only [true_iff]
      omega

/-- What the search finds from the root on. -/
theorem innermost_of_enclosing {q : Query} {start stop : Nat} (hroot : q.tree.green.isNode = true)
    (hx : q.enclosing? start stop = some x) : Innermost (.between start stop) q.root x := by
  simp only [enclosing?] at hx
  split at hx
  · cases hx
  · split at hx
    · rename_i hcovers
      cases hx
      exact descend_innermost (Bool.and_eq_true_iff.mpr ⟨hroot, hcovers⟩) (Nat.le_refl _)
    · cases hx

/-- **The innermost node around a stretch is the deepest.**  There is none just if the offsets are the wrong way round
or the stretch reaches past the tree.  Otherwise the search finds a node of the tree around the stretch with none below
it.  If no node has two children that are around the stretch, then every node around the stretch is on the way from the
root to the one that is found, so that none is deeper; and a stretch with text never leaves such a choice. -/
theorem enclosing_deepest {q : Query} (hroot : q.tree.green.isNode = true) (start stop : Nat) :
    (q.enclosing? start stop = none ↔ stop < start ∨ q.tree.green.length < stop) ∧
      ((∃ p ∈ q.nodes, p.Contested (.between start stop)) → stop ≤ start) ∧
      ∀ x, q.enclosing? start stop = some x →
        x ∈ q.nodes ∧ x.span.covers (.between start stop) = true ∧
          (∀ y ∈ q.nodes, y.span.covers (.between start stop) = true → y ∈ x.preorder → y = x) ∧
          ((∀ p ∈ q.nodes, ¬ p.Contested (.between start stop)) →
            ∀ y ∈ q.nodes, y.span.covers (.between start stop) = true →
              y.path <+: x.path ∧ y.path.length ≤ x.path.length) := by
  refine ⟨enclosing_eq_none_iff q start stop, ?_, fun x hx => ?_⟩
  · rintro ⟨p, -, hp⟩
    by_contra hlt
    refine Located.not_contested ?_ hp
    simp only [Span.between, Span.stop]
    omega
  · have hfound := innermost_of_enclosing hroot hx
    obtain ⟨hnode, hspan⟩ := Bool.and_eq_true_iff.mp hfound.surrounds
    refine ⟨mem_nodes_iff.mpr ⟨hfound.mem, hnode⟩, hspan, fun y hy hyspan hbelow => ?_, fun hchoice y hy hyspan => ?_⟩
    · exact hfound.last y hbelow (Bool.and_eq_true_iff.mpr ⟨(mem_nodes_iff.mp hy).2, hyspan⟩)
    · obtain ⟨hyroot, hynode⟩ := mem_nodes_iff.mp hy
      have hnone : ∀ p ∈ q.root.preorder, ¬ p.Contested (.between start stop) := by
        rintro p hp ⟨u, hu, hrest⟩
        exact hchoice p (mem_nodes_iff.mpr ⟨hp, Located.isNode_of_mem_children hu⟩) ⟨u, hu, hrest⟩
      have hbelow := hfound.onTheWay hnone y hyroot (Bool.and_eq_true_iff.mpr ⟨hynode, hyspan⟩)
      have hway := Located.path_prefix hbelow
      exact ⟨hway, hway.length_le⟩

end Query

/-! ## Where one element ends and another begins -/

namespace Border

/-- A language of two token types and four rules. -/
def language : Language where
  name := "border"
  vocabulary := .ofNames [none, some "'x'", some "'y'"] [none, some "X", some "Y"]
  rules := #[("main", ⟨0⟩), ("left", ⟨1⟩), ("right", ⟨2⟩), ("inner", ⟨3⟩)]
  elements := ⟨3, 4⟩

/-- The first rule matches an `X` in a rule of its own, and then a `Y` in a rule inside another. -/
def grammar : Grammar where
  language := language
  entry _ _ := .asRule ⟨0⟩ fun _ =>
    (Recognizer.within (.single ⟨2⟩) fun _ => .asRule ⟨1⟩ fun _ => .expect ⟨1⟩ ∅).bind fun _ =>
      .within ∅ fun _ => .asRule ⟨2⟩ fun _ => .within ∅ fun _ => .asRule ⟨3⟩ fun _ => .expect ⟨2⟩ ∅

/-- The outcome of a run over `xy`. -/
def project : Except Abort HostTree :=
  let host : Supervised GreenBuilder :=
    { builder := .ofText ⟨[⟨3, "x"⟩, ⟨4, "y"⟩], ""⟩ language, elements := language.elements }
  (({} : Session).project grammar ⟨0⟩ .file host).1.outcome

/-- Around the `y` there is no choice. -/
theorem enclosing_deepest_text : ∃ t, project = .ok t ∧ t.green.isNode = true ∧
    ((⟨t, language⟩ : Query).enclosing? 1 2).map Located.path = some [0, 1, 0] ∧
    ∀ x, (⟨t, language⟩ : Query).enclosing? 1 2 = some x →
      ∀ y ∈ (⟨t, language⟩ : Query).nodes, y.span.covers (.between 1 2) = true → y.path.length ≤ x.path.length := by
  have hrun : ∃ t, project = .ok t ∧ t.green.isNode = true ∧
      ((⟨t, language⟩ : Query).enclosing? 1 2).map Located.path = some [0, 1, 0] := by decide +kernel
  obtain ⟨t, hproject, hnode, hpath⟩ := hrun
  obtain ⟨-, hchoice, hfound⟩ := Query.enclosing_deepest (q := ⟨t, language⟩) hnode 1 2
  have hnone : ∀ p ∈ (⟨t, language⟩ : Query).nodes, ¬ p.Contested (.between 1 2) := by
    intro p hp hcontested
    have hle := hchoice ⟨p, hp, hcontested⟩
    omega
  exact ⟨t, hproject, hnode, hpath, fun x hx y hy hspan => ((hfound x hx).2.2.2 hnone y hy hspan).2⟩

/-- **Between the two elements the search misses the deeper one.**  The empty stretch after the `x` lies in the rule of
the `x` and in the two rules of the `y`; the search goes into the first, and never gets to the inner rule. -/
theorem enclosing_misses_deeper : ∃ t, project = .ok t ∧
    ((⟨t, language⟩ : Query).enclosing? 1 1).map Located.path = some [0, 0] ∧
    ∃ y ∈ (⟨t, language⟩ : Query).nodes, y.span.covers (.between 1 1) = true ∧ y.path = [0, 1, 0] := by
  decide +kernel

end Border

end TreeProjection
