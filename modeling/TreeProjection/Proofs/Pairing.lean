import TreeProjection.Proofs.Alongside
import TreeProjection.Proofs.Building
import TreeProjection.Proofs.Covering

/-! # Parses whose offsets are paired off

Errors are looked up by the offsets of the tokens that they are placed at.  If two tapes are of the same length and
each has its tokens at different offsets, then tokens at the same place stand at offsets that are paired off.  Whole
parses of one sketch that have read such tapes then find the same errors at the same leaves, and what is built of
their trees is the same but for where the tokens stand.

* `Tape.Paired` — the offsets of tokens at the same place of two tapes.
* `ErrorIndex.beside_ofReports` — errors whose reports have one sketch are found at paired offsets.
* `Parser.Whole.beside` — trees of one sketch are side by side.
* `Outline.beside_ofView` — outlines of trees side by side have one sketch. -/

namespace TreeProjection

open ParseNode (View)

variable {σ σ' : Type} {d : Detail} {pair : Nat → Nat → Prop}

/-! ## Tapes -/

section

variable {x x' : Tape}

/-- **The offsets of tokens at the same place of two tapes.** -/
def Tape.Paired (x x' : Tape) (o o' : Nat) : Prop := ∃ a, a ≤ x.size ∧ x.offset a = o ∧ x'.offset a = o'

/-- Where different tokens stand at different offsets, the offsets are paired off. -/
theorem Tape.pairedOff (hx : x.Distinct) (hx' : x'.Distinct) (hsize : x.size = x'.size) :
    PairedOff (x.Paired x') := by
  rintro _ _ _ _ ⟨a, ha, rfl, rfl⟩ ⟨b, hb, rfl, rfl⟩
  constructor
  · intro heq
    rw [hx a b ha hb heq]
  · intro heq
    rw [hx' a b (hsize ▸ ha) (hsize ▸ hb) heq]

/-- **Tokens of one sketch** are those at the same place. -/
theorem Tape.paired_of_sketch {t t' : Token} (h : t.sketch d = t'.sketch d)
    (ht : ∃ a, a ≤ x.size ∧ t = x.token a) (ht' : ∃ a, a ≤ x'.size ∧ t' = x'.token a) :
    x.Paired x' (t.start?.getD 0) (t'.start?.getD 0) := by
  obtain ⟨a, ha, rfl⟩ := ht
  obtain ⟨a', ha', rfl⟩ := ht'
  have hindex := Token.congr_sketch Token.index (fun _ => rfl) h
  rw [token_index, token_index, Nat.min_eq_left ha, Nat.min_eq_left ha'] at hindex
  obtain rfl := Option.some.inj hindex
  exact ⟨a, ha, rfl, rfl⟩

end

/-! ## Collected errors -/

/-- The report that a sketch of a note tells of. -/
theorem Note.report?_sketch (n : Note) : (n.sketch d).report? = n.report?.map (·.sketch d) := by
  cases n <;> rfl

/-- The reports that a sketch of a parser tells of. -/
theorem Parser.reports_sketch (p : Parser σ) : (p.sketch d).reports = p.reports.map (·.sketch d) := by
  unfold reports sketch
  rw [Array.toList_map, List.filterMap_map, List.map_filterMap]
  exact List.filterMap_congr fun n _ => n.report?_sketch

/-- The error that a sketch of a report tells of. -/
theorem SyntaxError.sketch_ofReport (d : Detail) (r : Report) :
    (ofReport r).sketch d = ofReport (r.sketch d) := by
  obtain ⟨offending, line, column, message, exception⟩ := r
  cases exception with
  | none => rfl
  | some e =>
      obtain ⟨id, kind, offending', expected, rule⟩ := e
      cases kind <;> rfl

namespace ErrorCollector

/-- A sketch of what has been collected. -/
def sketch (d : Detail) (c : ErrorCollector) : ErrorCollector := { c with errors := c.errors.map (·.sketch d) }

/-- A report that is taken in, as a sketch shows it. -/
theorem sketch_hear (d : Detail) (c : ErrorCollector) (r : Report) :
    (c.hear r).sketch d = (c.sketch d).hear (r.sketch d) := by
  obtain ⟨offending, line, column, message, exception⟩ := r
  cases exception with
  | none => simp [hear, sketch, Report.sketch, SyntaxError.sketch_ofReport]
  | some e =>
      have hid : (e.sketch d).id = e.id := rfl
      by_cases hknown : (c.byException.lookup e.id).isSome = true
      · simp [hear, sketch, Report.sketch, hid, hknown]
      · simp [hear, sketch, Report.sketch, hid, hknown, SyntaxError.sketch_ofReport]

/-- What is collected from reports, as a sketch shows it. -/
theorem sketch_ofReports (d : Detail) (rs : List Report) :
    (ofReports rs).sketch d = ofReports (rs.map (·.sketch d)) := by
  unfold ofReports
  induction rs using List.reverseRecOn with
  | nil => simp [sketch]
  | append_singleton rs r ih =>
      rw [List.map_append, List.foldl_append, List.foldl_append, ← ih]
      exact sketch_hear d _ r

end ErrorCollector

namespace ErrorIndex

/-- **Places that are entered under paired offsets** are found there. -/
theorem lookup_foldl_enter (hpair : PairedOff pair) {es es' : List SyntaxError}
    (h : List.Forall₂ (fun e e' => pair e.offset e'.offset) es es') (n : Nat)
    {acc acc' : List (Nat × List Nat)} (hacc : ∀ {o o'}, pair o o' → acc.lookup o = acc'.lookup o') {o o' : Nat}
    (ho : pair o o') :
    ((es.zipIdx n).foldl (fun acc e => enter e.1.offset e.2 acc) acc).lookup o =
      ((es'.zipIdx n).foldl (fun acc e => enter e.1.offset e.2 acc) acc').lookup o' := by
  induction h generalizing n acc acc' with
  | nil => exact hacc ho
  | cons he _ ih =>
      rw [List.zipIdx_cons, List.zipIdx_cons, List.foldl_cons, List.foldl_cons]
      refine ih (n + 1) fun {o o'} ho => ?_
      rw [lookup_enter, lookup_enter, hacc ho]
      simp only [hpair ho he]

/-- The texts at an offset are those of the errors there. -/
theorem messagesAt?_eq (x : ErrorIndex) (o : Nat) : x.messagesAt? o =
    match ((x.byOffset.lookup o).getD []).reverse.filterMap
      fun place => x.errors[place]?.map SyntaxError.message with
    | [] => none
    | messages => some (Text.joinLines messages) := by
  unfold messagesAt? allAt
  rw [← List.map_filterMap]
  cases ((x.byOffset.lookup o).getD []).reverse.filterMap fun place => x.errors[place]? <;> rfl

/-- **Errors of one sketch are found at paired offsets.** -/
theorem beside_ofCollector (hpair : PairedOff pair) {c c' : ErrorCollector} (h : c.sketch d = c'.sketch d)
    (hoffsets : List.Forall₂ (fun e e' => pair e.offset e'.offset) c.errors.toList c'.errors.toList) :
    (ofCollector c).Beside pair (ofCollector c') := by
  have hmessages : ∀ place : Nat, c.errors[place]?.map SyntaxError.message =
      c'.errors[place]?.map SyntaxError.message := by
    intro place
    have hplace : (c.errors.map (·.sketch d))[place]? = (c'.errors.map (·.sketch d))[place]? :=
      congrArg (·[place]?) (congrArg ErrorCollector.errors h)
    have := congrArg (Option.map SyntaxError.message) hplace
    rw [Array.getElem?_map, Array.getElem?_map, Option.map_map, Option.map_map] at this
    exact this
  have hexceptions : (c.sketch d).byException = (c'.sketch d).byException := by rw [h]
  change c.byException = c'.byException at hexceptions
  constructor
  · intro o o' ho
    -- The tables are filled from the same messages in the same order, so that they name the same places.
    have hplaces : (ofCollector c).byOffset.lookup o = (ofCollector c').byOffset.lookup o' :=
      lookup_foldl_enter hpair hoffsets 0 (fun _ => rfl) ho
    rw [messagesAt?_eq, messagesAt?_eq, hplaces]
    simp only [ofCollector, hmessages]
  · intro id
    simp only [forException?, ofCollector, hexceptions]
    cases c'.byException.lookup id with
    | none => rfl
    | some place => exact hmessages place

/-- **Errors whose reports have one sketch**, and which are placed at tokens of the tapes, are found at paired
offsets. -/
theorem beside_ofReports {x x' : Tape} (hpair : PairedOff (x.Paired x')) {rs rs' : List Report}
    (h : rs.map (·.sketch d) = rs'.map (·.sketch d))
    (hrs : ∀ r ∈ rs, ∃ a, a ≤ x.size ∧ r.anchor = x.token a)
    (hrs' : ∀ r ∈ rs', ∃ a, a ≤ x'.size ∧ r.anchor = x'.token a) :
    (ofReports rs).Beside (x.Paired x') (ofReports rs') := by
  have hcollected : (ErrorCollector.ofReports rs).sketch d = (ErrorCollector.ofReports rs').sketch d := by
    rw [ErrorCollector.sketch_ofReports, ErrorCollector.sketch_ofReports, h]
  refine beside_ofCollector hpair hcollected ?_
  -- each error is placed where its report is
  have hplaced : ∀ {y : Tape} {qs : List Report}, (∀ r ∈ qs, ∃ a, a ≤ y.size ∧ r.anchor = y.token a) →
      ∀ e ∈ (ErrorCollector.ofReports qs).errors.toList, ∃ a, a ≤ y.size ∧ e.offending = y.token a := by
    intro y qs hqs e he
    obtain ⟨r, hr, rfl⟩ := ErrorCollector.exists_report (Array.mem_toList_iff.mp he)
    exact hqs r hr
  have hsketches : List.Forall₂ (fun e e' : SyntaxError => e.sketch d = e'.sketch d)
      (ErrorCollector.ofReports rs).errors.toList (ErrorCollector.ofReports rs').errors.toList := by
    have herrors := congrArg (fun c : ErrorCollector => c.errors.toList) hcollected
    simp only [ErrorCollector.sketch, Array.toList_map] at herrors
    rwa [← List.forall₂_eq_eq_eq, List.forall₂_map_left_iff, List.forall₂_map_right_iff] at herrors
  have hboth := (List.forall₂_and_left _ _ |>.mpr ⟨hplaced hrs, hsketches⟩).flip
  refine ((List.forall₂_and_left _ _).mpr ⟨hplaced hrs', hboth⟩).flip.imp ?_
  rintro e e' ⟨he', he, hsketch⟩
  exact Tape.paired_of_sketch (congrArg SyntaxError.offending hsketch) he he'

end ErrorIndex

/-! ## Parse trees -/

namespace ParseTree

variable {t : ParseTree} {token : Token}

mutual

/-- **An error leaf among the nodes that hold a tree** is one of its leaves. -/
theorem Shows.mem_leaves : ∀ {v : View} {lo id : Nat}, t.Shows lo v → lo ≤ id → id < lo + v.size →
    t.nodes[id]? = some (.error token) → (false, token) ∈ v.leaves
  | .rule r children, lo, id, h, hlo, hid, hnode => by
      simp only [View.size] at hid
      rcases Nat.eq_or_lt_of_le hlo with rfl | hlt
      · cases h.1.symm.trans hnode
      · exact ShowsAll.mem_leavesOf h.2.2 hlt (by omega) hnode
  | .terminal _, lo, id, h, hlo, hid, hnode => by
      obtain rfl : lo = id := Nat.le_antisymm hlo (Nat.le_of_lt_succ hid)
      cases Eq.trans (Eq.symm h) hnode
  | .error _, lo, id, h, hlo, hid, hnode => by
      obtain rfl : lo = id := Nat.le_antisymm hlo (Nat.le_of_lt_succ hid)
      cases Eq.trans (Eq.symm h) hnode
      exact List.mem_singleton_self _

/-- An error leaf among the nodes that hold several trees is one of their leaves. -/
theorem ShowsAll.mem_leavesOf : ∀ {vs : List View} {lo id : Nat}, t.ShowsAll lo vs → lo ≤ id →
    id < lo + View.sizes vs → t.nodes[id]? = some (.error token) → (false, token) ∈ View.leavesOf vs
  | [], lo, id, _, hlo, hid, _ => absurd hid (Nat.not_lt_of_le hlo)
  | v :: rest, lo, id, h, hlo, hid, hnode => by
      simp only [View.sizes] at hid
      rw [View.leavesOf, List.mem_append]
      rcases Nat.lt_or_ge id (lo + v.size) with hlt | hge
      · exact .inl (Shows.mem_leaves h.1 hlo hlt hnode)
      · exact .inr (ShowsAll.mem_leavesOf h.2 hge (by omega) hnode)

end

end ParseTree

/-- An error leaf of a whole parse is made up, or it holds a token of the tape. -/
theorem Parser.Whole.error_token [TokenSource σ] {x : Tape} {q : Parser σ} {r : RuleNode} {vs : List View}
    (h : q.Whole x r vs) {id : Nat} {t : Token} (ht : q.tree.nodes[id]? = some (.error t))
    (hmade : t.isConjured = false) : ∃ a, a ≤ x.size ∧ t = x.token a := by
  have hid : id < q.tree.size := (Array.getElem?_eq_some_iff.mp ht).1
  rw [h.size] at hid
  have hleaf := h.shows.mem_leaves (Nat.zero_le id) (by omega) ht
  rw [View.leaves] at hleaf
  rcases h.walk.of_mem hleaf with ⟨-, hconjured⟩ | ⟨a, -, ha, htoken⟩
  · cases hmade.symm.trans hconjured
  · exact ⟨a, Nat.le_trans ha h.standing.le_size, htoken⟩

/-- **Nodes of one sketch are side by side**, if error leaves that are not made up stand at paired offsets. -/
theorem ParseNode.beside_of_sketch {n n' : ParseNode} (h : n.sketch d = n'.sketch d)
    (herror : ∀ t t' : Token, n = .error t → n' = .error t' → t.sketch d = t'.sketch d → t.isConjured = false →
      t'.isConjured = false → pair (t.start?.getD 0) (t'.start?.getD 0)) : n.Beside d pair n' := by
  cases n with
  | rule r =>
      cases n' with
      | rule r' => exact .rule (ParseNode.rule.inj h)
      | terminal t' => cases h
      | error t' => cases h
  | terminal t =>
      cases n' with
      | rule r' => cases h
      | terminal t' => exact .terminal (ParseNode.terminal.inj h)
      | error t' => cases h
  | error t =>
      cases n' with
      | rule r' => cases h
      | terminal t' => cases h
      | error t' =>
          have ht : t.sketch d = t'.sketch d := ParseNode.error.inj h
          -- whether a token has been made up shows in its sketch
          have hconjured : t.isConjured = t'.isConjured := Token.congr_sketch Token.isConjured (fun _ => rfl) ht
          exact .error ⟨ht, fun hmade => herror t t' rfl rfl ht hmade (hconjured.symm.trans hmade)⟩

/-- **Whole parses whose trees have one sketch have trees side by side.** -/
theorem Parser.Whole.beside [TokenSource σ] [TokenSource σ'] {x x' : Tape} {q : Parser σ} {q' : Parser σ'}
    {r r' : RuleNode} {vs vs' : List View} (h : q.Whole x r vs) (h' : q'.Whole x' r' vs')
    (hsketch : q.tree.sketch d = q'.tree.sketch d) :
    q.tree.Beside d (x.Paired x') q'.tree := by
  have hnodes : q.tree.nodes.map (·.sketch d) = q'.tree.nodes.map (·.sketch d) :=
    congrArg ParseTree.nodes hsketch
  refine ⟨by rw [h.root, h'.root], ?_, fun id => ?_⟩
  · have := congrArg Array.size hnodes
    rwa [Array.size_map, Array.size_map] at this
  · have hnode : (q.tree.nodes[id]?).map (·.sketch d) = (q'.tree.nodes[id]?).map (·.sketch d) := by
      rw [← Array.getElem?_map, hnodes, Array.getElem?_map]
    cases hn : q.tree.nodes[id]? with
    | none =>
        rw [hn, Option.map_none] at hnode
        rw [Option.map_eq_none_iff.mp hnode.symm]
        exact .none
    | some n =>
        rw [hn, Option.map_some] at hnode
        obtain ⟨n', hn', hsame⟩ := Option.map_eq_some_iff.mp hnode.symm
        rw [hn']
        refine .some (ParseNode.beside_of_sketch hsame.symm ?_)
        rintro t t' rfl rfl ht hmade hmade'
        exact Tape.paired_of_sketch ht (h.error_token hn hmade) (h'.error_token hn' hmade')

/-! ## Outlines -/

namespace Outline

mutual

/-- A sketch of an outline. -/
def sketch (d : Detail) : Outline → Outline
  | token t => .token (t.sketch d)
  | node kind parts => .node kind (sketches d parts)
  | error message parts => .error message (sketches d parts)

/-- Sketches of several outlines. -/
def sketches (d : Detail) : List Outline → List Outline
  | [] => []
  | o :: rest => sketch d o :: sketches d rest

end

@[simp] theorem sketches_append (os os' : List Outline) :
    sketches d (os ++ os') = sketches d os ++ sketches d os' := by
  induction os with
  | nil => rfl
  | cons o os ih => rw [List.cons_append, sketches, ih, sketches, List.cons_append]

/-- The messages of outlines one after the other. -/
theorem messagesOf_append (os os' : List Outline) : messagesOf (os ++ os') = messagesOf os ++ messagesOf os' := by
  induction os with
  | nil => rfl
  | cons o os ih => rw [List.cons_append, messagesOf, ih, messagesOf, List.append_assoc]

/-- Tokens have no messages. -/
theorem messagesOf_map_token (ts : List Token) : messagesOf (ts.map .token) = [] := by
  induction ts with
  | nil => rfl
  | cons t ts ih => exact ih

mutual

/-- A sketch shows the messages. -/
theorem messages_sketch : ∀ o : Outline, (o.sketch d).messages = o.messages
  | .token _ => rfl
  | .node _ parts => messagesOf_sketches parts
  | .error message parts => congrArg (message :: ·) (messagesOf_sketches parts)

/-- Sketches show the messages. -/
theorem messagesOf_sketches : ∀ os : List Outline, messagesOf (sketches d os) = messagesOf os
  | [] => rfl
  | o :: rest => by rw [sketches, messagesOf, messagesOf, messages_sketch o, messagesOf_sketches rest]

end

mutual

/-- A sketch shows which tokens the tree of an outline holds. -/
theorem image_sketch (tokens : List PlacedToken) : ∀ o : Outline, image tokens (o.sketch d) = image tokens o
  | .token _ => rfl
  | .node kind parts => congrArg (fun ts => [PlacedTree.node kind ts]) (images_sketches tokens parts)
  | .error _ parts => congrArg (fun ts => [PlacedTree.node .error ts]) (images_sketches tokens parts)

/-- Sketches show which tokens the trees of outlines hold. -/
theorem images_sketches (tokens : List PlacedToken) : ∀ os : List Outline,
    images tokens (sketches d os) = images tokens os
  | [] => rfl
  | o :: rest => by rw [sketches, images, images, image_sketch tokens o, images_sketches tokens rest]

end

/-- The passing of the tokens of two leaves. -/
theorem sketches_passed {t t' : Token} (h : t.sketch d = t'.sketch d) :
    sketches d (passed t) = sketches d (passed t') := by
  have heof : t.isEof = t'.isEof := Token.congr_sketch Token.isEof (fun _ => rfl) h
  unfold passed
  rw [heof]
  split
  · rfl
  · simp only [sketches, sketch, h]

/-- **What is built of two trees side by side**: the outlines have one sketch, and the offsets whose errors have been
placed after them are paired. -/
structure Beside (d : Detail) (pair : Nat → Nat → Prop) (r r' : List Outline × List Nat) : Prop where
  /-- The outlines have one sketch. -/
  sketches : sketches d r.1 = sketches d r'.1
  /-- The offsets are paired. -/
  spent : List.Forall₂ pair r.2 r'.2

variable {errors errors' : ErrorIndex} {tree tree' : ParseTree}

/-- What is built of two error leaves. -/
theorem beside_ofErrorLeaf (hpair : PairedOff pair) (herrors : errors.Beside pair errors') {spent spent' : List Nat}
    (hspent : List.Forall₂ pair spent spent') {t t' : Token} (ht : t.Beside d pair t') :
    Beside d pair (ofErrorLeaf errors spent t) (ofErrorLeaf errors' spent' t') := by
  have hconjured : t.isConjured = t'.isConjured := Token.congr_sketch Token.isConjured (fun _ => rfl) ht.sketch
  have htext : t.text = t'.text := Token.congr_sketch Token.text (fun _ => rfl) ht.sketch
  unfold ofErrorLeaf
  rw [hconjured, htext]
  by_cases hmade : t'.isConjured = true
  · rw [if_pos hmade, if_pos hmade]
    exact ⟨rfl, hspent⟩
  · have hoffset := ht.offset (by rw [hconjured]; exact Bool.eq_false_iff.mpr hmade)
    rw [if_neg hmade, if_neg hmade]
    -- a message is used up at the one offset exactly if it is at the other
    simp only [hpair.contains_iff hspent hoffset, herrors.messagesAt? hoffset]
    have hpassed := sketches_passed ht.sketch
    split
    · refine ⟨?_, .cons hoffset hspent⟩
      simp only [Outline.sketches, sketch, hpassed]
    · exact ⟨hpassed, hspent⟩

mutual

/-- **Outlines of trees side by side have one sketch**, and the trees are of the same size. -/
theorem beside_ofView (hpair : PairedOff pair) (herrors : errors.Beside pair errors')
    (htree : tree.Beside d pair tree') (e : ElementTypes) : ∀ {v v' : View} {lo : Nat} {spent spent' : List Nat},
    tree.Shows lo v → tree'.Shows lo v' → List.Forall₂ pair spent spent' →
      Beside d pair (ofView e errors spent v) (ofView e errors' spent' v') ∧ v.size = v'.size
  | .rule r vs, v', lo, spent, spent', h, h', hspent => by
      cases v' with
      | terminal t' => cases htree.node h.1 h'
      | error t' => cases htree.node h.1 h'
      | rule r' vs' =>
          cases htree.node h.1 h'.1 with
          | rule hr =>
              have hrule : r.rule = r'.rule := RuleNode.congr_sketch RuleNode.rule (fun _ => rfl) hr
              have hchildren : r.children = r'.children :=
                RuleNode.congr_sketch RuleNode.children (fun _ => rfl) hr
              have hroots : View.roots (lo + 1) vs = View.roots (lo + 1) vs' := by
                -- The rules have as many children at the same places, so that the trees below them go side by side.
                rw [← h.2.1, ← h'.2.1, hchildren]
              obtain ⟨hinside, hsizes⟩ := beside_ofViews hpair herrors htree e h.2.2 h'.2.2 hroots hspent
              refine ⟨?_, congrArg (· + 1) hsizes⟩
              unfold ofView
              rcases RuleNode.exception_of_sketch hr with ⟨he, he'⟩ | ⟨x, x', he, he', hid⟩
              · rw [he, he', hrule]
                refine ⟨?_, hinside.spent⟩
                simp only [Outline.sketches, sketch, hinside.sketches]
              · rw [he, he']
                refine ⟨?_, hinside.spent⟩
                simp only [Outline.sketches, sketch, hinside.sketches, herrors.failureMessage hid]
  | .terminal t, v', lo, spent, spent', h, h', hspent => by
      cases v' with
      | rule r' vs' => cases htree.node h h'.1
      | error t' => cases htree.node h h'
      | terminal t' =>
          cases htree.node h h' with
          | terminal ht => exact ⟨⟨sketches_passed ht, hspent⟩, rfl⟩
  | .error t, v', lo, spent, spent', h, h', hspent => by
      cases v' with
      | rule r' vs' => cases htree.node h h'.1
      | terminal t' => cases htree.node h h'
      | error t' =>
          cases htree.node h h' with
          | error ht => exact ⟨beside_ofErrorLeaf hpair herrors hspent ht, rfl⟩

/-- Outlines of several trees side by side have one sketch, and the trees are of the same size. -/
theorem beside_ofViews (hpair : PairedOff pair) (herrors : errors.Beside pair errors')
    (htree : tree.Beside d pair tree') (e : ElementTypes) : ∀ {vs vs' : List View} {lo : Nat} {spent spent' : List Nat},
    tree.ShowsAll lo vs → tree'.ShowsAll lo vs' → View.roots lo vs = View.roots lo vs' → List.Forall₂ pair spent spent' →
      Beside d pair (ofViews e errors spent vs) (ofViews e errors' spent' vs') ∧ View.sizes vs = View.sizes vs'
  | [], vs', lo, spent, spent', _, _, hroots, hspent => by
      cases vs' with
      | nil => exact ⟨⟨rfl, hspent⟩, rfl⟩
      | cons v' rest' => cases hroots
  | v :: rest, vs', lo, spent, spent', h, h', hroots, hspent => by
      cases vs' with
      | nil => cases hroots
      | cons v' rest' =>
          obtain ⟨hfirst, hsize⟩ := beside_ofView hpair herrors htree e h.1 h'.1 hspent
          have htail : View.roots (lo + v.size) rest = View.roots (lo + v.size) rest' := by
            rw [View.roots, View.roots, ← hsize] at hroots
            exact (List.cons.inj hroots).2
          obtain ⟨hothers, hsizes⟩ := beside_ofViews hpair herrors htree e h.2 (hsize ▸ h'.2) htail hfirst.spent
          refine ⟨⟨?_, hothers.spent⟩, by rw [View.sizes, View.sizes, hsize, hsizes]⟩
          rw [ofViews, ofViews, sketches_append, sketches_append, hfirst.sketches, hothers.sketches]

end

end Outline

end TreeProjection
