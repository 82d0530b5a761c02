import Mathlib.Data.List.Basic
import TreeProjection.Proofs.Attesting
import TreeProjection.Proofs.Consumed
import TreeProjection.Proofs.Fetching

/-! # The bounds of rules

A rule takes the place of the current token for its start when it is entered, and the place of the last token that was
passed for its stop when it is left, unless that lies before the start.  Whatever happens in between, that is where its
leaves are: the start is the place of the first token of the input below it and the stop that of the last one, and there
is no stop just if there is no such token.

* `ParseNode.View.places` — the places of the tokens of the input among the leaves of trees.
* `ParseNode.View.Bounds` — a rule whose bounds tell where the leaves below it are.
* `ParseNode.View.Nested` — the bounds of what stands below a rule lie inside its own, one after the other.
* `Parser.runs_rule_bounds` — what the bounds of a rule are taken from.
* `Recognizer.OrdinaryRule.bounds_tell` — the bounds of all rules of a finished tree. -/

namespace TreeProjection

open ParseNode (View)
open TreeProjection.Parser

variable {σ α β : Type}

/-! ## Rules and the leaves below them -/

/-- What goes up lies between its first and its last element. -/
theorem bounds_of_pairwise {is : List Nat} (h : is.Pairwise (· < ·)) {i j k : Nat} (hi : i ∈ is.head?)
    (hj : j ∈ is.getLast?) (hk : k ∈ is) : i ≤ k ∧ k ≤ j := by
  obtain ⟨front, rfl⟩ := List.getLast?_eq_some_iff.mp hj
  have hlast := (List.pairwise_append.mp h).2.2
  constructor
  · cases hall : front ++ [j] with
    | nil => simp at hall
    | cons i' is =>
        rw [hall] at h hi hk
        obtain rfl := Option.some.inj hi
        rcases List.mem_cons.mp hk with rfl | hk
        · exact Nat.le_refl _
        · exact Nat.le_of_lt ((List.pairwise_cons.mp h).1 k hk)
  · rcases List.mem_append.mp hk with hk | hk
    · exact Nat.le_of_lt (hlast k hk j List.mem_cons_self)
    · exact Nat.le_of_eq (List.mem_singleton.mp hk)

namespace ParseNode.View

mutual

/-- **The rules of a tree**, each before those below it, with the trees below it. -/
def rules : View → List (RuleNode × List View)
  | rule r children => (r, children) :: rulesOf children
  | terminal _ => []
  | error _ => []

/-- The rules of several trees. -/
def rulesOf : List View → List (RuleNode × List View)
  | [] => []
  | v :: rest => rules v ++ rulesOf rest

end

/-- **The places of the tokens of the input** among the leaves of trees. -/
def places (vs : List View) : List Nat := (read vs).filterMap Token.index

/-- **The bounds of a rule tell where the leaves below it are.** -/
structure Bounds (r : RuleNode) (vs : List View) : Prop where
  /-- It starts with the first token of the input below it, if there is one. -/
  start : ∀ i ∈ (places vs).head?, r.start = some i
  /-- It stops with the last one, and has no stop if there is none. -/
  stop : r.stop = (places vs).getLast?

/-- The place of a leaf, if it is a token of the input. -/
def place? (t : Token) : Option Nat := if t.isEof then none else t.index

/-- The stretch of a tree: the bounds of a rule, if it has both, and the place of a leaf that is a token of the input. -/
def stretch? : View → Option (Nat × Nat)
  | rule r _ => r.start.bind fun i => r.stop.map fun j => (i, j)
  | terminal t => (place? t).map fun i => (i, i)
  | error t => (place? t).map fun i => (i, i)

/-- **What stands below a rule lies inside its bounds**, one after the other. -/
structure Nested (r : RuleNode) (vs : List View) : Prop where
  /-- No stretch goes backwards. -/
  forward : ∀ s ∈ vs.filterMap stretch?, s.1 ≤ s.2
  /-- Each ends before the next begins. -/
  apart : (vs.filterMap stretch?).Pairwise fun s s' => s.2 < s'.1
  /-- All lie between the bounds of the rule. -/
  inside : ∀ s ∈ vs.filterMap stretch?, ∃ i j, r.start = some i ∧ r.stop = some j ∧ i ≤ s.1 ∧ s.2 ≤ j

variable {r : RuleNode} {v : View} {vs ws : List View}

@[simp] theorem rulesOf_append (vs ws : List View) : rulesOf (vs ++ ws) = rulesOf vs ++ rulesOf ws := by
  induction vs with
  | nil => rfl
  | cons v vs ih => rw [List.cons_append, rulesOf, rulesOf, ih, List.append_assoc]

/-- There are no rules among error leaves. -/
theorem rulesOf_errors (h : ∀ v ∈ vs, ∃ t, v = View.error t) : rulesOf vs = [] := by
  induction vs with
  | nil => rfl
  | cons v vs ih =>
      obtain ⟨⟨t, rfl⟩, hrest⟩ := List.forall_mem_cons.mp h
      rw [rulesOf, ih hrest, rules, List.append_nil]

@[simp] theorem places_append (vs ws : List View) : places (vs ++ ws) = places vs ++ places ws := by
  simp [places]

theorem places_cons (v : View) (vs : List View) : places (v :: vs) = places [v] ++ places vs :=
  places_append [v] vs

/-- The place of a leaf is the only one. -/
theorem places_leaf {matched : Bool} {t : Token} (hv : leavesOf [v] = [(matched, t)]) :
    places [v] = (place? t).toList := by
  rw [places, read, hv, place?]
  cases hindex : t.index <;> cases heof : t.isEof <;> simp [Token.isConjured, hindex, heof]

/-- **A stretch goes from the first place to the last one**, if the bounds of the rule tell where its leaves are. -/
theorem mem_of_stretch? {s : Nat × Nat} (h : ∀ b ∈ rules v, Bounds b.1 b.2) (hs : stretch? v = some s) :
    s.1 ∈ (places [v]).head? ∧ s.2 ∈ (places [v]).getLast? := by
  -- Both kinds of leaf have the place of their token, if it has one, for first and for last.
  have hleaf : ∀ {t : Token}, places [v] = (place? t).toList → (place? t).map (fun i => (i, i)) = some s →
      s.1 ∈ (places [v]).head? ∧ s.2 ∈ (places [v]).getLast? := by
    intro t hplaces hs
    obtain ⟨i, hi, rfl⟩ := Option.map_eq_some_iff.mp hs
    rw [hplaces, hi]
    exact ⟨rfl, rfl⟩
  cases v with
  | terminal t => exact hleaf (places_leaf rfl) hs
  | error t => exact hleaf (places_leaf rfl) hs
  | rule r children =>
      have hbounds : Bounds r children := h (r, children) List.mem_cons_self
      obtain ⟨i, hi, hs⟩ := Option.bind_eq_some_iff.mp hs
      obtain ⟨j, hj, rfl⟩ := Option.map_eq_some_iff.mp hs
      have hplaces : places [rule r children] = places children := by rw [places, read_rule, places]
      rw [hplaces]
      rw [hbounds.stop] at hj
      refine ⟨?_, hj⟩
      cases hall : places children with
      | nil =>
          rw [hall] at hj
          cases hj
      | cons k ks =>
          have hstart := hbounds.start k (by rw [hall]; rfl)
          rw [hi] at hstart
          exact hstart.symm

/-- **Stretches side by side**: each is inside what the places of the trees span, and ends before the next begins. -/
theorem pairwise_stretches (h : ∀ b ∈ rulesOf vs, Bounds b.1 b.2) (hplaces : (places vs).Pairwise (· < ·)) :
    (∀ s ∈ vs.filterMap stretch?, s.1 ≤ s.2 ∧ s.1 ∈ places vs ∧ s.2 ∈ places vs) ∧
      (vs.filterMap stretch?).Pairwise fun s s' => s.2 < s'.1 := by
  induction vs with
  | nil => exact ⟨List.forall_mem_nil _, .nil⟩
  | cons v vs ih =>
      rw [places_cons, List.pairwise_append] at hplaces
      obtain ⟨hfirst, hrest, happart⟩ := hplaces
      rw [rulesOf, List.forall_mem_append] at h
      obtain ⟨hinside, hpairwise⟩ := ih h.2 hrest
      -- What the rest says of its own places holds of all of them.
      have hlater : ∀ s ∈ vs.filterMap stretch?, s.1 ≤ s.2 ∧ s.1 ∈ places (v :: vs) ∧ s.2 ∈ places (v :: vs) := by
        intro s hs
        rw [places_cons]
        exact ⟨(hinside s hs).1, List.mem_append_right _ (hinside s hs).2.1, List.mem_append_right _ (hinside s hs).2.2⟩
      cases hstretch : stretch? v with
      | none =>
          rw [List.filterMap_cons_none hstretch]
          exact ⟨hlater, hpairwise⟩
      | some s =>
          rw [List.filterMap_cons_some hstretch]
          obtain ⟨hhead, hlast⟩ := mem_of_stretch? h.1 hstretch
          have hmem : s.1 ∈ places [v] ∧ s.2 ∈ places [v] :=
            ⟨List.mem_of_mem_head? hhead, List.mem_of_mem_getLast? hlast⟩
          refine ⟨List.forall_mem_cons.mpr ⟨⟨?_, ?_⟩, hlater⟩, List.pairwise_cons.mpr ⟨fun s' hs' => ?_, hpairwise⟩⟩
          · exact (bounds_of_pairwise hfirst hhead hlast hmem.2).1
          · rw [places_cons]
            exact ⟨List.mem_append_left _ hmem.1, List.mem_append_left _ hmem.2⟩
          · -- the place is one of the first tree, and the next stretch begins at one of the rest
            exact happart _ hmem.2 _ (hinside s' hs').2.1

/-- **Bounds that tell where leaves are lie inside each other**, if the places of the leaves go up. -/
theorem Bounds.nested (hr : Bounds r vs) (h : ∀ b ∈ rulesOf vs, Bounds b.1 b.2) (hplaces : (places vs).Pairwise (· < ·)) :
    Nested r vs := by
  obtain ⟨hinside, hpairwise⟩ := pairwise_stretches h hplaces
  refine ⟨fun s hs => (hinside s hs).1, hpairwise, fun s hs => ?_⟩
  obtain ⟨-, hfirst, hlast⟩ := hinside s hs
  have hne := List.ne_nil_of_mem hfirst
  have hi := List.head?_eq_some_head hne
  have hj := List.getLast?_eq_some_getLast hne
  exact ⟨_, _, hr.start _ hi, hr.stop.trans hj, (bounds_of_pairwise hplaces hi hj hfirst).1,
    (bounds_of_pairwise hplaces hi hj hlast).2⟩

mutual

/-- **So do those of all rules of a tree.** -/
theorem nested_of_mem : ∀ v : View, (∀ b ∈ rules v, Bounds b.1 b.2) → (places [v]).Pairwise (· < ·) →
    ∀ b ∈ rules v, Nested b.1 b.2
  | rule r children, h, hplaces => by
      rw [show places [rule r children] = places children by rw [places, read_rule, places]] at hplaces
      obtain ⟨hr, hchildren⟩ := List.forall_mem_cons.mp h
      exact List.forall_mem_cons.mpr
        ⟨hr.nested hchildren hplaces, nested_of_mem_rulesOf children hchildren hplaces⟩
  | terminal _, _, _ => List.forall_mem_nil _
  | error _, _, _ => List.forall_mem_nil _

/-- So do those of all rules of several trees. -/
theorem nested_of_mem_rulesOf : ∀ vs : List View, (∀ b ∈ rulesOf vs, Bounds b.1 b.2) → (places vs).Pairwise (· < ·) →
    ∀ b ∈ rulesOf vs, Nested b.1 b.2
  | [], _, _ => List.forall_mem_nil _
  | v :: rest, h, hplaces => by
      rw [places_cons, List.pairwise_append] at hplaces
      obtain ⟨hv, hrest⟩ := List.forall_mem_append.mp h
      exact List.forall_mem_append.mpr
        ⟨nested_of_mem v hv hplaces.1, nested_of_mem_rulesOf rest hrest hplaces.2.1⟩

end

end ParseNode.View

/-! ## The places of what lies between two places -/

namespace Tape

variable (x : Tape) {i j k : Nat}

/-- The places of the tokens between two places go up from the one to the other. -/
theorem places_between_sublist (hj : j ≤ x.size) :
    ((x.between i j).filterMap Token.index).Sublist (List.range' i (j - i)) := by
  have hall : ((List.range' i (j - i)).map x.token).filterMap Token.index = List.range' i (j - i) := by
    rw [List.filterMap_map]
    refine (List.filterMap_congr fun k hk => ?_).trans (List.filterMap_some (l := List.range' i (j - i)))
    have hle : k ≤ x.size := by
      rw [List.mem_range'_1] at hk
      omega
    rw [Function.comp_apply, x.token_index, Nat.min_eq_left hle]
  have hsub := (List.filter_sublist (p := Token.isVisible) (l := (List.range' i (j - i)).map x.token)).filterMap Token.index
  rwa [hall] at hsub

/-- Each of them goes up from the one and stays below the other. -/
theorem mem_places_between (hj : j ≤ x.size) (hk : k ∈ (x.between i j).filterMap Token.index) : i ≤ k ∧ k < j := by
  have hmem := (x.places_between_sublist hj).subset hk
  rw [List.mem_range'_1] at hmem
  omega

/-- The first of them is the place where reading has begun. -/
theorem head?_places_between (hj : j ≤ x.size) (hi : Stream.isStop (x.token i) = true) :
    ∀ k ∈ ((x.between i j).filterMap Token.index).head?, k = i := by
  rcases Nat.lt_or_ge i j with hlt | hge
  · have hvisible : (x.token i).isVisible = true := by
      simpa [Stream.isStop, Nat.not_le_of_lt (Nat.lt_of_lt_of_le hlt hj)] using hi
    have hindex : (x.token i).index = some i := by rw [x.token_index, Nat.min_eq_left (by omega)]
    obtain ⟨n, hn⟩ : ∃ n, j - i = n + 1 := ⟨j - i - 1, by omega⟩
    rw [between, hn, List.range'_succ, List.map_cons, List.filter_cons_of_pos hvisible, List.filterMap_cons_some hindex]
    intro k hk
    exact (Option.mem_some.mp hk).symm
  · intro k hk
    simp [between, Nat.sub_eq_zero_of_le hge] at hk

/-- The last place is that of the last token. -/
theorem getLast?_places (i : Nat) :
    ((x.between 0 i).filterMap Token.index).getLast? = (x.between 0 i).getLast?.bind Token.index := by
  cases hlast : (x.between 0 i).getLast? with
  | none =>
      rw [List.getLast?_eq_none_iff.mp hlast]
      rfl
  | some t =>
      obtain ⟨front, hfront⟩ := List.getLast?_eq_some_iff.mp hlast
      have ht : t ∈ x.between 0 i := List.mem_of_getLast? hlast
      obtain ⟨k, -, rfl⟩ := List.mem_map.mp (List.mem_filter.mp ht).1
      rw [hfront, List.filterMap_append, List.getLast?_append]
      rfl

/-- **The last token before a place**, unless it lies before another one, is the last token between the two. -/
theorem getLast?_places_between (hij : i ≤ j) (hj : j ≤ x.size) :
    ((x.between 0 j).getLast?.bind Token.index).filter (fun k => i ≤ k) =
      ((x.between i j).filterMap Token.index).getLast? := by
  rw [← x.getLast?_places, ← x.between_append (Nat.zero_le i) hij, List.filterMap_append, List.getLast?_append]
  cases hlast : ((x.between i j).filterMap Token.index).getLast? with
  | some k =>
      have hk := (x.mem_places_between hj (List.mem_of_getLast? hlast)).1
      simp [hk]
  | none =>
      -- what lies before the first place is passed over
      rw [Option.none_or, Option.filter_eq_none_iff]
      intro k hk
      have hlt := (x.mem_places_between (Nat.le_trans hij hj) (List.mem_of_getLast? hk)).2
      simpa using hlt

end Tape

/-- Looking back finds the last visible token before the cursor. -/
theorem Stream.Standing.behind?_one [TokenSource σ] {x : Tape} {s : Stream σ} {i : Nat} (h : s.Standing x i) :
    s.behind? 1 = (x.between 0 i).getLast? := by
  rw [behind?, visibleBefore?_eq s 0 s.cursor (by rw [h.cursor]; exact Nat.le_of_lt h.lt_size), ← h.passed_eq, passed,
    ← List.head?_eq_getElem?, List.head?_reverse]

/-! ## What the bounds of a rule are taken from -/

namespace ParseTree

/-- **A rule has a node with this start.** -/
def Begun (t : ParseTree) (n : Nat) (start : Option Nat) : Prop :=
  ∃ node : RuleNode, t.nodes[n]? = some (.rule node) ∧ node.start = start

variable {t u : ParseTree} {n c : Nat} {start : Option Nat} {vs : List View}

/-- The start stays when rules are changed in other ways. -/
theorem Begun.modify (h : t.Begun n start) (c : Nat) {f : RuleNode → RuleNode} (hf : ∀ r, (f r).start = r.start) :
    (t.modifyRule c f).Begun n start := by
  obtain ⟨node, hnode, rfl⟩ := h
  by_cases hc : n = c
  · subst hc
    exact ⟨f node, getElem?_modifyRule_self hnode f, hf node⟩
  · exact ⟨node, (getElem?_modifyRule_ne hc f).trans hnode, rfl⟩

/-- It stays when trees are added. -/
theorem Begun.grow (h : t.Begun n start) (hgrows : t.Grows c vs u) : u.Begun n start := by
  obtain ⟨node, hnode, rfl⟩ := h
  by_cases hc : n = c
  · subst hc
    obtain ⟨r, hr, hu⟩ := hgrows.parent
    obtain rfl : node = r := ParseNode.rule.inj (Option.some.inj (hnode.symm.trans hr))
    exact ⟨_, hu, rfl⟩
  · have hlt : n < t.nodes.size := (Array.getElem?_eq_some_iff.mp hnode).1
    exact ⟨node, (hgrows.others n hlt hc).trans hnode, rfl⟩

end ParseTree

namespace Parser

variable [TokenSource σ] {x : Tape} {p p₁ q r : Parser σ} {vs ws : List View} {rs : List Report} {i n : Nat}
  {start : Option Nat}

/-- A step leaves the starts of rules as they are. -/
theorem Step.begun (h : Step x p vs rs q) (hbegun : p.tree.Begun n start) : q.tree.Begun n start := by
  obtain ⟨c, -, hgrows⟩ := h.grows
  exact hbegun.grow hgrows

/-- **Entering a rule** takes the place of the current token for its start. -/
theorem runs_enterRule_begun (h : p.input.Facing x i) (hacting : p.speculating = 0)
    (r : RuleIndex) : Runs (enterRule r) p (fun _ => True) fun _ q =>
      q.tree.Begun p.tree.nodes.size (x.token i).index := by
  refine (runs_enterRule_opened h hacting trivial r).mono ?_
  rintro _ _ ⟨rfl, s, hs, rfl⟩
  exact ⟨{ rule := r, start := (x.token i).index }, p.tree.getElem?_push_last p.currentNode? _, rfl⟩

/-- **Handling the failure of a rule's body** leaves the starts of rules as they are. -/
theorem runs_handleRecognition_begun (hp : Ready x p) {e : RecognitionException} (he : e.anchor = x.token p.index)
    {r : RuleIndex} (hr : p.currentRule? = some r) (hbegun : p.tree.Begun n start) :
    Runs (handleRecognition e) p (fun _ => True) fun o q =>
      o = .ok () ∧ q.frames = p.frames ∧ q.tree.Begun n start := by
  obtain ⟨c, r₀, hc, hr₀⟩ := hp.inRule
  unfold handleRecognition
  -- Neither noting the exception nor reporting nor recovering touches a node's start.
  refine Runs.of_modify ?_
  simp only [hc]
  have hready : Ready x { p with tree := p.tree.modifyRule c fun r => { r with exception := some e } } :=
    ⟨hp.standing, hp.noted, hp.denied, hp.acting, c, _, hc, ParseTree.getElem?_modifyRule_self hr₀ _⟩
  refine (runs_reportError hready he).bind ?_ (by rintro e q ⟨⟨⟩, -⟩)
  rintro _ s ⟨-, rs, hreported⟩
  have hrule : s.currentRule? = some r := by
    simp only [currentRule?, hreported.step.frames] at hr ⊢
    exact hr
  refine (runs_recover (hreported.step.ready hready) trivial hreported.inRecovery hrule e).mono ?_
  rintro _ q ⟨rfl, given, ts, hrecovered⟩
  have hstep := hrecovered.skipped.step
  have hmarked : (p.tree.modifyRule c fun r => { r with exception := some e }).Begun n start :=
    hbegun.modify c fun _ => rfl
  exact ⟨rfl, hstep.frames.trans hreported.step.frames, hstep.begun (hreported.step.begun hmarked)⟩

/-- **Leaving a rule** takes the place of the last token for its stop, unless that lies before the start. -/
theorem runs_leaveRule_bounds {r : RuleIndex} {frames : List Frame} (hframes : p.frames = ⟨r, some n⟩ :: frames)
    (hbegun : p.tree.Begun n start) :
    Runs (do
      let exited ← observe exitRule
      release (.ok ())
      release exited) p (fun _ => True) fun _ q => ∃ node : RuleNode, q.tree.nodes[n]? = some (.rule node) ∧
        node.start = start ∧ node.stop = ((q.behind? 1).bind Token.index).filter fun k => start.any (· ≤ k) := by
  have hexit : Runs exitRule p (fun _ => True) fun o q => o = .ok () ∧ ∃ node : RuleNode,
      q.tree.nodes[n]? = some (.rule node) ∧ node.start = start ∧
        node.stop = ((q.behind? 1).bind Token.index).filter fun k => start.any (· ≤ k) := by
    obtain ⟨node, hnode, rfl⟩ := hbegun
    refine Ends.mono (exitRule_retires p) fun o q hends => ?_
    obtain ⟨rfl | rfl, rfl⟩ := hends.of_active hframes
    · exact ⟨rfl, _, ParseTree.getElem?_modifyRule_self hnode _, rfl, rfl⟩
    · trivial
  exact hexit.of_observe (fun _ _ h => h.2) (by rintro e q ⟨⟨⟩, -⟩) fun _ _ _ => trivial

/-- **What the bounds of a rule are taken from**: the current token when it is entered, and the last one when it is
left. -/
theorem runs_rule_bounds (h : p.input.Facing x i) (hacting : p.speculating = 0) (hnoted : p.strategy.noted = false)
    (hdenied : p.strategy.denied = [])
    {r : RuleIndex} {body : ParserM σ Unit} (hbody : ∀ p₁, Ready x p₁ → Runs body p₁ (fun _ => True) (Acts x p₁)) :
    Runs (rule r body) p (fun _ => True) fun _ q => ∃ node : RuleNode,
      q.tree.nodes[p.tree.nodes.size]? = some (.rule node) ∧ node.start = (x.token i).index ∧
        node.stop = ((q.behind? 1).bind Token.index).filter fun k => (x.token i).index.any (· ≤ k) := by
  unfold rule
  refine ((runs_enterRule h hacting hnoted hdenied trivial r).and
    (runs_enterRule_begun h hacting r)).bind ?_ (by rintro e q ⟨⟨⟨⟩, -⟩, -⟩)
  rintro _ p₁ ⟨⟨-, hentered⟩, hbegun⟩
  refine (hbody p₁ hentered.ready).of_observe ?_ ?_ fun a q _ => runs_leaveRule_of_abort trivial a
  · rintro _ q ⟨vs, rs, hstep, -⟩
    exact runs_leaveRule_bounds (hstep.frames.trans hentered.frames) (hstep.begun hbegun)
  · rintro e q ⟨vs, rs, hstep, hanchor⟩
    have hready := hstep.ready hentered.ready
    have hrule : q.currentRule? = some r := by
      simp only [currentRule?, hstep.frames, hentered.frames, List.head?_cons, Option.map_some]
    refine Runs.of_get ?_
    rw [if_neg (by simp [hready.isSpeculating])]
    -- The body has failed outside of trials, so that the failure is handled before the rule is left.
    refine (runs_handleRecognition_begun hready (hanchor e rfl) hrule (hstep.begun hbegun)).of_observe ?_
      (by rintro e q ⟨⟨⟩, -⟩) fun a q _ => runs_leaveRule_of_abort trivial a
    rintro _ q₁ ⟨-, hframes, hbegun₁⟩
    exact runs_leaveRule_bounds (hframes.trans (hstep.frames.trans hentered.frames)) hbegun₁

/-- **Bounds that are taken so tell where the leaves of the rule are.** -/
theorem Moves.bounds {node : RuleNode} (hmoves : Moves x p vs rs q) (hp : p.input.Standing x p.index)
    (hstart : node.start = (x.token p.index).index)
    (hstop : node.stop = ((q.behind? 1).bind Token.index).filter fun k => (x.token p.index).index.any (· ≤ k)) :
    View.Bounds node vs := by
  have hindex : (x.token p.index).index = some p.index := by rw [x.token_index, Nat.min_eq_left hp.le_size]
  have hplaces : View.places vs = (x.between p.index q.index).filterMap Token.index := by
    rw [View.places, hmoves.read]
  have hend := hmoves.standing.le_size
  rw [hindex] at hstart hstop
  refine ⟨fun k hk => ?_, ?_⟩
  · rw [hplaces] at hk
    rw [hstart, x.head?_places_between hend hp.isStop k hk]
  · rw [hplaces, hstop, ← x.getLast?_places_between hmoves.index_le hend, behind?, hmoves.standing.behind?_one]
    rfl

/-- **What an action has added is rules whose bounds tell where their leaves are**, and if it fails, it fails where the
input stands. -/
def Bounded (x : Tape) (p : Parser σ) (o : Except RecognitionException α) (q : Parser σ) : Prop :=
  ∃ vs rs, Step x p vs rs q ∧ (∀ e, o = .error e → e.anchor = x.token q.index) ∧
    ∀ b ∈ View.rulesOf vs, View.Bounds b.1 b.2

/-- It is a step. -/
theorem Bounded.acts {o : Except RecognitionException α} (h : Bounded x p o q) : Acts x p o q := by
  obtain ⟨vs, rs, hstep, hanchor, -⟩ := h
  exact ⟨vs, rs, hstep, hanchor⟩

/-- First one action, and then another. -/
theorem Bounded.after {a : α} {o : Except RecognitionException β} (h : Bounded x p (.ok a) q) (h' : Bounded x q o r) :
    Bounded x p o r := by
  obtain ⟨vs, rs, hstep, -, hvs⟩ := h
  obtain ⟨ws, rs', hrest, hanchor, hws⟩ := h'
  refine ⟨vs ++ ws, rs ++ rs', hstep.trans hrest, hanchor, ?_⟩
  rw [View.rulesOf_append]
  exact List.forall_mem_append.mpr ⟨hvs, hws⟩

/-- **One action after the other.** -/
theorem bounded_bind {act : ParserM σ α} {next : α → ParserM σ β} (hp : Ready x p)
    (h : Runs act p (fun _ => True) (Bounded x p))
    (hnext : ∀ a q, Ready x q → Runs (next a) q (fun _ => True) (Bounded x q)) :
    Runs (act >>= next) p (fun _ => True) (Bounded x p) := by
  refine h.bind ?_ ?_
  · intro a q hq
    have hready : Ready x q := by
      obtain ⟨vs, rs, hstep, -⟩ := hq
      exact hstep.ready hp
    exact (hnext a q hready).mono fun _ _ hr => hq.after hr
  · rintro e q ⟨vs, rs, hstep, hanchor, hvs⟩
    exact ⟨vs, rs, hstep, fun _ he => hanchor _ (congrArg _ (Except.error.inj he)), hvs⟩

/-- A step that adds no rules. -/
theorem Step.bounded (h : Step x p vs rs q) (hvs : View.rulesOf vs = []) (a : α) :
    Bounded x p (.ok a : Except RecognitionException α) q :=
  ⟨vs, rs, h, nofun, by rw [hvs]; exact List.forall_mem_nil _⟩

/-- What has failed has added nothing. -/
theorem Failed.bounded {e : RecognitionException} (h : Failed x p e q) :
    Bounded x p (.error e : Except RecognitionException α) q := by
  refine ⟨[], [], h.step, ?_, List.forall_mem_nil _⟩
  rintro _ ⟨⟩
  rw [h.anchor, h.index]

/-- **A rule, wherever it is entered**, has bounds that tell where its leaves are. -/
theorem runs_rule_bounded (h : p.input.Facing x i) (hacting : p.speculating = 0) (hnoted : p.strategy.noted = false)
    (hdenied : p.strategy.denied = [])
    {r : RuleIndex} {body : ParserM σ Unit}
    (hbody : ∀ p₁, Ready x p₁ → Runs body p₁ (fun _ => True) (Bounded x p₁)) :
    Runs (rule r body) p (fun _ => True) fun o q => o = .ok () ∧ ∃ p₁ node vs rs, Entered x i r p p₁ ∧
      q.frames = p.frames ∧ p₁.tree.Opened p.tree.nodes.size node vs q.tree ∧ Moves x p₁ vs rs q ∧
      ∀ b ∈ View.rules (.rule node vs), View.Bounds b.1 b.2 := by
  have hbounds := runs_rule_bounds (r := r) h hacting hnoted hdenied fun p₁ hp₁ =>
    (hbody p₁ hp₁).mono fun _ _ hq => hq.acts
  refine ((runs_rule_entered h hacting hnoted hdenied trivial
    (fun _ _ vs _ _ => ∀ b ∈ View.rulesOf vs, View.Bounds b.1 b.2) fun p₁ _ h₁ => (hbody p₁ h₁.ready).mono ?_).and
    hbounds).mono ?_
  · rintro o q ⟨vs, rs, hstep, hanchor, hvs⟩
    exact ⟨vs, rs, hstep, hvs, hanchor, trivial, fun _ _ _ _ _ => trivial⟩
  · rintro _ q ⟨⟨rfl, p₁, node, vs, rs, -, hentered, -, hframes, hopen, hmoves, hend⟩, node', hnode', hstart, hstop⟩
    refine ⟨rfl, p₁, node, vs, rs, hentered, hframes, hopen, hmoves, List.forall_mem_cons.mpr ⟨?_, ?_⟩⟩
    · obtain rfl : node = node' := ParseNode.rule.inj (Option.some.inj (hopen.node.symm.trans hnode'))
      rw [← hentered.index] at hstart hstop
      exact hmoves.bounds hentered.ready.standing hstart hstop
    · cases hend with
      | well vs rs q₀ hvs => exact hvs
      | failed e vs ws rs rs' q₀ hvs _ _ _ _ errors =>
          -- what is passed over after the failure is no rule
          rw [View.rulesOf_append, View.rulesOf_errors errors, List.append_nil]
          exact hvs

end Parser

/-! ## Recognizers -/

variable [TokenSource σ]

/-- **An operation adds no rules.** -/
theorem Operation.runs_bounded {x : Tape} {p : Parser σ} (op : Operation β) (hp : Ready x p) :
    Runs op.run p (fun _ => True) (Bounded x p) := by
  cases op with
  | ahead k =>
      refine (runs_ahead (.standing hp.standing) trivial k).mono ?_
      rintro _ _ ⟨rfl, s, hs, rfl⟩
      exact (hp.reread hs).bounded rfl _
  | expect ty follow =>
      refine (runs_expect hp trivial ty follow fun _ _ _ _ => trivial).mono ?_
      rintro o q hmatched
      cases hmatched with
      | here _ step => exact step.bounded rfl _
      | dropped _ _ _ _ step => exact step.bounded rfl _
      | madeUp _ _ _ _ _ _ _ step => exact step.bounded rfl _
      | failed _ _ failed => exact failed.bounded
  | consume =>
      refine (runs_consume hp trivial).mono ?_
      rintro _ q ⟨rfl, hstep, -⟩
      refine hstep.bounded ?_ _
      cases p.recovery.inRecovery <;> rfl
  | sync expecting =>
      refine (runs_sync hp trivial expecting fun _ _ _ _ => trivial).mono ?_
      rintro _ q ⟨rfl, hguarded⟩
      cases hguarded with
      | «open» step => exact step.bounded rfl _
      | passed _ _ _ _ step _ _ _ errors => exact step.bounded (View.rulesOf_errors errors) _
      | stayed _ _ _ step => exact step.bounded rfl _
  | require holds text =>
      refine (runs_require hp trivial holds text).mono ?_
      rintro _ q (⟨rfl, -, rfl⟩ | ⟨e, rfl, hfailed, -⟩)
      · exact hp.refl.bounded rfl _
      · exact hfailed.bounded
  | noViableAlt depth =>
      refine (runs_raiseNoViableAlt hp trivial depth).mono ?_
      rintro _ q ⟨e, rfl, hfailed, -⟩
      exact hfailed.bounded
  | mismatch expected =>
      refine (runs_raiseMismatch hp trivial expected).mono ?_
      rintro _ q ⟨e, rfl, hfailed, -⟩
      exact hfailed.bounded

/-- **What a recognizer adds is rules whose bounds tell where their leaves are.** -/
theorem Recognizer.Ordinary.runs_bounded {x : Tape} {p : Parser σ} {r : Recognizer α} (h : r.Ordinary)
    (hp : Ready x p) : Runs r.run p (fun _ => True) (Bounded x p) := by
  induction r generalizing p with
  | pure a => exact hp.refl.bounded rfl a
  | outOfSteps => trivial
  | step op next ih => exact bounded_bind hp (op.runs_bounded hp) fun b q hq => ih b (h b) hq
  | direct d next ih => exact h.elim
  | rule r body next ihbody ihnext =>
      refine bounded_bind hp ?_ fun u q hq => ihnext u (h.2 u) hq
      refine (runs_rule_bounded (.standing hp.standing) hp.acting hp.noted hp.denied
        fun p₁ hp₁ => ihbody () h.1 hp₁).mono ?_
      rintro _ q ⟨rfl, p₁, node, vs, rs, hentered, hframes, hopen, hmoves, hbounds⟩
      refine ⟨_, rs, hmoves.step_of_opened hp hentered hframes hopen, nofun, ?_⟩
      rw [View.rulesOf, View.rulesOf, List.append_nil]
      exact hbounds
  | invoke follow body next ihbody ihnext =>
      refine bounded_bind hp ?_ fun b q hq => ihnext b (h.2 b) hq
      refine (runs_invoke (ihbody () h.1 (hp.invoked follow))).mono ?_
      rintro o _ ⟨q, ⟨vs, rs, hbody, hanchor, hvs⟩, rfl⟩
      exact ⟨vs, rs, hbody.of_invoke, hanchor, hvs⟩
  | speculate body next ihbody ihnext =>
      refine bounded_bind hp ?_ fun b q hq => ihnext b (h.2 b) hq
      -- whatever is added on trial is taken back
      refine (runs_speculate hp.standing trivial (fun _ => True) fun p₁ hp₁ _ _ =>
        (h.1.runs_trying hp₁ trivial).mono fun _ _ hq => ⟨hq, trivial⟩).mono ?_
      rintro _ _ ⟨b, s, n, rfl, hs, hn, rfl, -⟩
      exact (hp.aside hs p.recovery hn).bounded rfl b
  | attempt body next ihbody ihnext =>
      refine bounded_bind hp ?_ fun b q hq => ihnext b (h.2 b) hq
      refine (runs_attempt (ihbody () h.1 hp)).mono ?_
      rintro _ q ⟨b, rfl, vs, rs, hstep, -, hvs⟩
      exact ⟨vs, rs, hstep, nofun, hvs⟩

/-- **The bounds of rules tell where their leaves are.**  Whatever a recognizer has tried, made up, passed over or failed
with, in the tree of a finished parse each rule starts with the first token of the input below it and stops with the
last one, and it has no stop if there is none.  So what stands below a rule lies inside its bounds, one after the other.
The tree has no other nodes than those that are seen, and its tokens are those that the input holds at their places. -/
theorem Recognizer.OrdinaryRule.bounds_tell {e : Recognizer Unit} (h : e.OrdinaryRule) {source : σ}
    (hsource : TokenSource.RunsOut source) {strategy : Strategy} (hstrategy : strategy = .default ∨ strategy = .anchored)
    (language : Language) (recursionLimit : Option Nat) (listeners : Nat) {p q : Parser σ}
    (hp : p = { input := .ofSource source, language, strategy, recursionLimit, listeners }) (hq : e.run p = .ok () q) :
    ∃ v, q.tree.view? = some v ∧ q.tree.size = v.size ∧
      (∀ t ∈ View.read [v], ∃ i, t.index = some i ∧ q.input.buffer[i]? = some t) ∧
      ∀ b ∈ v.rules, View.Bounds b.1 b.2 ∧ View.Nested b.1 b.2 := by
  subst hp
  obtain ⟨x, hx⟩ := hsource.exists_feeds
  obtain ⟨r, body, rfl, hbody⟩ := h
  -- Neither strategy notes the calls of its hooks or lets one of them do nothing.
  have hdoes : strategy.noted = false ∧ strategy.denied = [] := by
    rcases hstrategy with rfl | rfl <;> exact ⟨rfl, rfl⟩
  rw [run_rule_pure] at hq
  have hruns := Ends.of_ok (runs_rule_bounded (.fresh (Stream.reads_ofSource hx) rfl rfl) rfl hdoes.1 hdoes.2
    fun p₁ hp₁ => hbody.runs_bounded hp₁) hq
  obtain ⟨-, p₁, node, vs, rs, hentered, -, hopen, hmoves, hbounds⟩ := hruns
  obtain ⟨hroot, hsize, hshows⟩ := hentered.shows_of_opened rfl rfl hopen
  have hread : View.read [View.rule node vs] = x.between p₁.index q.index := by rw [View.read_rule, hmoves.read]
  have hend := hmoves.standing.le_size
  have hplaces : (View.places [View.rule node vs]).Pairwise (· < ·) := by
    rw [View.places, hread]
    exact List.Pairwise.sublist (x.places_between_sublist hend) (List.pairwise_lt_range')
  refine ⟨.rule node vs, ?_, hsize, fun t ht => ?_, fun b hb => ⟨hbounds b hb, View.nested_of_mem _ hbounds hplaces b hb⟩⟩
  · rw [ParseTree.view?, hroot, Option.bind_some]
    exact ParseTree.viewAt_of_shows _ _ _ hshows (Nat.le_of_eq hsize.symm)
  · rw [hread] at ht
    obtain ⟨k, hk, rfl⟩ := List.mem_map.mp (List.mem_filter.mp ht).1
    -- a token that is read below the rule stands at its own index, as it comes before the end of input
    have hlt : k < q.index := by
      have hle := hmoves.index_le
      rw [List.mem_range'_1] at hk
      omega
    refine ⟨k, ?_, hmoves.standing.reads.get k (Nat.lt_trans hlt hmoves.standing.lt_size)⟩
    rw [x.token_index, Nat.min_eq_left (by omega)]

namespace Retried

/-- A rule with four below it: one that drops a token and matches another, one that does nothing, one that matches a
token, and one that fails at the end. -/
def nesting : Recognizer Unit :=
  .asRule ⟨0⟩ fun _ => (Recognizer.asRule ⟨1⟩ fun _ => (Recognizer.expect ⟨1⟩ ∅).bind fun _ => .pure ()).bind fun _ =>
    (Recognizer.asRule ⟨2⟩ fun _ => .pure ()).bind fun _ =>
      (Recognizer.asRule ⟨3⟩ fun _ => (Recognizer.expect ⟨2⟩ ∅).bind fun _ => .pure ()).bind fun _ =>
        Recognizer.asRule ⟨4⟩ fun _ => .noViableAlt 1

/-- It is a rule made of ordinary operations. -/
theorem ordinaryRule_nesting : nesting.OrdinaryRule := by
  have hmatching : ∀ r ty, (Recognizer.asRule r fun _ => (Recognizer.expect ty ∅).bind fun _ => .pure ()).Ordinary :=
    fun r ty => Recognizer.ordinary_asRule (.bind (Recognizer.ordinary_expect _ _) fun _ => trivial)
  have hidle : ∀ r, (Recognizer.asRule r fun _ => .pure ()).Ordinary := fun r => ⟨trivial, fun _ => trivial⟩
  apply Recognizer.ordinaryRule_asRule
  refine (hmatching ⟨1⟩ ⟨1⟩).bind fun _ => (hidle ⟨2⟩).bind fun _ => (hmatching ⟨3⟩ ⟨2⟩).bind fun _ => ?_
  exact Recognizer.ordinary_asRule (Recognizer.ordinary_noViableAlt 1)

/-- The rule that does nothing and the one that fails have no stop, and the others stop where they should, with hidden
tokens before, between and after them. -/
theorem bounds_tell_nesting : ∃ q v, nesting.run
      { input := .ofSource source, language := default, strategy := .anchored } = .ok () q ∧ q.tree.view? = some v ∧
    (v.rules.map fun b => (b.1.start, b.1.stop)) =
      [(some 1, some 4), (some 1, some 2), (some 4, none), (some 4, some 4), (some 5, none)] ∧
    ∀ b ∈ v.rules, View.Bounds b.1 b.2 ∧ View.Nested b.1 b.2 := by
  have hend : ∃ u q, nesting.run
      { input := .ofSource source, language := default, strategy := .anchored } = .ok u q ∧
      (q.tree.view?.map fun v => v.rules.map fun b => (b.1.start, b.1.stop)) =
        some [(some 1, some 4), (some 1, some 2), (some 4, none), (some 4, some 4), (some 5, none)] := by
    decide +kernel
  have hsource : TokenSource.RunsOut source := ListedTokens.runsOut (by decide)
  obtain ⟨_, q, hrun, hbounds⟩ := hend
  obtain ⟨v, hview, -, -, htell⟩ := ordinaryRule_nesting.bounds_tell hsource (.inr rfl) default none 0 rfl hrun
  obtain ⟨v', hview', hrules⟩ := Option.map_eq_some_iff.mp hbounds
  obtain rfl := Option.some.inj (hview.symm.trans hview')
  exact ⟨q, v, hrun, hview, hrules, htell⟩

end Retried

end TreeProjection
