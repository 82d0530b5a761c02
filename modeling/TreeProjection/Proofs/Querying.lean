import TreeProjection.Proofs.Enclosing
import TreeProjection.Proofs.Kinds
import TreeProjection.Sample.Parse

/-! # Elements by what they stand for

A query finds elements by their symbols, and lists elements without trivia.  Going through the elements for a rule gives
what listing them and asking each for its rule gives.  For a token type it does too, but only if the type is not trivia:
elements are looked for by their kinds, and trivia have kinds like all tokens.

* `Query.symbolOf?` — the symbol that an element stands for.
* `Query.HidesTrivia` — the queries without trivia in their answers.
* `Query.queries_agree` — what is found and what is listed. -/

namespace TreeProjection.Query

variable {q : Query} {x y : Located} {ty : TokenType} {r : RuleIndex}

/-! ## What is above an element -/

/-- **What is above an element of the tree** is a node. -/
theorem isNode_of_mem_ancestors (hx : x ∈ q.root.preorder) (hy : y ∈ q.ancestors x) : y.isNode = true := by
  obtain ⟨way, hway, hfollow⟩ := Located.exists_follow?_eq hx
  obtain rfl : x.path = way := hway
  obtain ⟨n, hn, hat⟩ := List.mem_filterMap.mp hy
  -- the way to what is above goes on, so there is a child below it
  have hlt : n < x.path.length := List.mem_range.mp (List.mem_reverse.mp hn)
  rw [← List.take_append_drop n x.path, Located.follow?_append] at hfollow
  rw [at?] at hat
  rw [hat, Option.bind_some, List.drop_eq_getElem_cons hlt] at hfollow
  exact Located.isNode_of_follow? hfollow

/-! ## Symbols of elements -/

/-- **The symbol that an element stands for**: the type of a token, or the rule of a node. -/
def symbolOf? (q : Query) (x : Located) : Option (TokenType ⊕ RuleIndex) :=
  if x.isNode then (q.language.elements.ruleIndexOf? x.kind).map .inr
  else (q.language.elements.tokenTypeOf? x.kind).map .inl

/-- An element is found by a symbol. -/
def FoundBy (q : Query) (x : Located) : TokenType ⊕ RuleIndex → Prop
  | .inl ty => x ∈ q.findToken ty
  | .inr r => x ∈ q.findRule r

/-- **A stray node** has the kind of a token, or one that the language does not have. -/
def Stray (q : Query) (x : Located) : Prop :=
  x.isNode = true ∧
    ((∃ ty, q.language.elements.token? ty = some x.kind) ∨ q.language.elements.size ≤ x.kind.toNat)

/-- The symbol of an element with a token type. -/
theorem symbolOf?_eq_inl_iff : q.symbolOf? x = some (.inl ty) ↔ q.tokenTypeOf? x = some ty := by
  rw [symbolOf?, tokenTypeOf?]
  cases x.isNode <;> simp

/-- The symbol of an element with a rule. -/
theorem symbolOf?_eq_inr_iff : q.symbolOf? x = some (.inr r) ↔ q.ruleIndexOf? x = some r := by
  rw [symbolOf?, ruleIndexOf?]
  cases x.isNode <;> simp

/-- **Trivia are the tokens of certain types.** -/
theorem isTrivia_iff :
    q.isTrivia x = true ↔ ∃ ty, q.tokenTypeOf? x = some ty ∧ q.language.trivia.contains ty = true := by
  rw [isTrivia, tokenTypeOf?, Language.isTrivia]
  cases x.isNode <;> simp [Option.any_eq_true]

/-- Nodes are not trivia. -/
theorem isTrivia_of_isNode (h : x.isNode = true) : q.isTrivia x = false := by
  rw [isTrivia, h, Bool.not_true, Bool.false_and]

/-- A token of a type is trivia if its type is. -/
theorem isTrivia_eq_contains (h : q.tokenTypeOf? x = some ty) : q.isTrivia x = q.language.trivia.contains ty := by
  rw [Bool.eq_iff_iff, isTrivia_iff, h]
  simp

/-! ## What is found -/

section Fits

variable (h : q.language.elements.Fits)
include h

/-- An element has a token type if it is a token of the kind of the type. -/
theorem tokenTypeOf?_eq_some_iff :
    q.tokenTypeOf? x = some ty ↔ x.isNode = false ∧ q.language.elements.token? ty = some x.kind := by
  rw [tokenTypeOf?, ← ElementTypes.tokenTypeOf?_eq_some_iff h]
  cases x.isNode <;> simp

/-- An element has a rule if it is a node of the kind of the rule. -/
theorem ruleIndexOf?_eq_some_iff :
    q.ruleIndexOf? x = some r ↔ x.isNode = true ∧ q.language.elements.rule? r = some x.kind := by
  rw [ruleIndexOf?, ← ElementTypes.ruleIndexOf?_eq_some_iff h]
  cases x.isNode <;> simp

/-- **The tokens of a type** are the elements that have it. -/
theorem findToken_eq (ty : TokenType) :
    q.findToken ty = q.root.preorder.filter fun x => q.tokenTypeOf? x == some ty := by
  rw [findToken]
  cases hkind : q.language.elements.token? ty with
  | none =>
      symm
      rw [List.filter_eq_nil_iff]
      intro x _ hx
      rw [beq_iff_eq, tokenTypeOf?_eq_some_iff h, hkind] at hx
      cases hx.2
  | some kind =>
      refine List.filter_congr fun x _ => Bool.eq_iff_iff.mpr ?_
      rw [beq_iff_eq, tokenTypeOf?_eq_some_iff h, hkind, Bool.and_eq_true, Bool.not_eq_true', beq_iff_eq,
        Option.some.injEq, eq_comm (a := x.kind)]

/-- **The nodes of a rule** are the elements that have it. -/
theorem findRule_eq (r : RuleIndex) : q.findRule r = q.root.preorder.filter fun x => q.ruleIndexOf? x == some r := by
  rw [findRule]
  cases hkind : q.language.elements.rule? r with
  | none =>
      symm
      rw [List.filter_eq_nil_iff]
      intro x _ hx
      rw [beq_iff_eq, ruleIndexOf?_eq_some_iff h, hkind] at hx
      cases hx.2
  | some kind =>
      simp only [nodes, List.filter_filter]
      refine List.filter_congr fun x _ => Bool.eq_iff_iff.mpr ?_
      rw [beq_iff_eq, ruleIndexOf?_eq_some_iff h, hkind, Bool.and_eq_true, beq_iff_eq, Option.some.injEq,
        eq_comm (a := x.kind), and_comm]

/-- **An element is found by the symbol that it stands for**, and by no other. -/
theorem foundBy_iff (hx : x ∈ q.root.preorder) (s : TokenType ⊕ RuleIndex) :
    q.FoundBy x s ↔ q.symbolOf? x = some s := by
  cases s with
  | inl ty => rw [FoundBy, findToken_eq h, List.mem_filter, beq_iff_eq, symbolOf?_eq_inl_iff, and_iff_right hx]
  | inr r => rw [FoundBy, findRule_eq h, List.mem_filter, beq_iff_eq, symbolOf?_eq_inr_iff, and_iff_right hx]

/-- **The nodes without rule** are error nodes, nodes around a file, and stray ones. -/
theorem ruleIndexOf?_eq_none_iff (hx : x.isNode = true) :
    q.language.elements.ruleIndexOf? x.kind = none ↔ x.kind = .error ∨ x.kind = .file ∨ q.Stray x := by
  rw [ElementTypes.ruleIndexOf?]
  rcases ElementTypes.element?_cases h x.kind with ⟨hkind, helement⟩ | ⟨hkind, helement⟩ | ⟨ty, helement, hlt, hkind⟩ |
    ⟨r, helement, hlt, hkind⟩ | ⟨helement, hle⟩
  · exact iff_of_true (by rw [helement]) (.inl hkind)
  · exact iff_of_true (by rw [helement]) (.inr (.inl hkind))
  · exact iff_of_true (by rw [helement])
      (.inr (.inr ⟨hx, .inl ⟨ty, (ElementTypes.token?_eq_some_iff h).mpr ⟨hlt, hkind⟩⟩⟩))
  · refine iff_of_false (by rw [helement]; exact Option.some_ne_none r) ?_
    -- kinds of rules come after the two special ones and those of token types, and before the end
    rintro (herror | hfile | ⟨-, ⟨ty, hty⟩ | hsize⟩)
    · have hzero : x.kind.toNat = 0 := congrArg UInt16.toNat herror
      omega
    · have hone : x.kind.toNat = 1 := congrArg UInt16.toNat hfile
      omega
    · have htoken := (ElementTypes.token?_eq_some_iff h).mp hty
      omega
    · rw [ElementTypes.size_eq] at hsize
      omega
  · exact iff_of_true (by rw [helement]) (.inr (.inr ⟨hx, .inr hle⟩))

/-- **The elements without symbol.** -/
theorem symbolOf?_eq_none_iff : q.symbolOf? x = none ↔
    isError x = true ∨ (x.isNode = true ∧ x.kind = .file) ∨ (x.isNode = false ∧ q.tokenTypeOf? x = none) ∨
      q.Stray x := by
  rw [symbolOf?]
  cases hx : x.isNode with
  | false => simp [isError, Stray, tokenTypeOf?, hx]
  | true => simp [isError, hx, ruleIndexOf?_eq_none_iff h hx]

end Fits

/-! ## Queries and trivia -/

/-- **The queries that hide trivia.** -/
structure HidesTrivia (q : Query) : Prop where
  /-- The children of an element. -/
  children : ∀ x, ∀ y ∈ q.children x, q.isTrivia y = false
  /-- An element and everything below it. -/
  descendants : ∀ x, ∀ y ∈ q.descendants x, q.isTrivia y = false
  /-- The nodes around an element of the tree. -/
  ancestors : ∀ x ∈ q.root.preorder, ∀ y ∈ q.ancestors x, q.isTrivia y = false
  /-- The nodes of a rule. -/
  findRule : ∀ r, ∀ y ∈ q.findRule r, q.isTrivia y = false
  /-- The first node of a kind. -/
  findNode : ∀ p, ∀ y ∈ q.findNode? p, q.isTrivia y = false
  /-- The innermost node around a stretch. -/
  enclosing : ∀ start stop, ∀ y ∈ q.enclosing? start stop, q.isTrivia y = false
  /-- The tokens of a type that is not trivia. -/
  findToken : ∀ ty, q.language.trivia.contains ty = false → ∀ y ∈ q.findToken ty, q.isTrivia y = false

/-- Elements are listed unless they are trivia. -/
theorem mem_descendants_iff : y ∈ q.descendants x ↔ y ∈ x.preorder ∧ q.isTrivia y = false := by
  rw [descendants, List.mem_filter, Bool.not_eq_true']

/-- What is not trivia can as well be picked from the elements that are listed. -/
theorem filter_descendants {p : Located → Bool} (hp : ∀ y, p y = true → q.isTrivia y = false) :
    (q.descendants x).filter p = x.preorder.filter p := by
  rw [descendants, List.filter_filter]
  refine List.filter_congr fun y _ => ?_
  cases hy : p y with
  | false => rfl
  | true => rw [hp y hy, Bool.not_false, Bool.true_and]

/-- **Queries hide trivia**, over a tree whose root is a node. -/
theorem hidesTrivia (h : q.language.elements.Fits) (hroot : q.tree.green.isNode = true) : q.HidesTrivia where
  children x y hy := by simpa using (List.mem_filter.mp hy).2
  descendants x y hy := (mem_descendants_iff.mp hy).2
  ancestors x hx y hy := isTrivia_of_isNode (isNode_of_mem_ancestors hx hy)
  findRule r y hy := by
    rw [findRule_eq h, List.mem_filter, beq_iff_eq, ruleIndexOf?_eq_some_iff h] at hy
    exact isTrivia_of_isNode hy.2.1
  findNode p y hy := isTrivia_of_isNode (mem_nodes_iff.mp (List.mem_of_find?_eq_some hy)).2
  enclosing start stop y hy := by
    have hfound := (innermost_of_enclosing hroot hy).surrounds
    exact isTrivia_of_isNode (Bool.and_eq_true_iff.mp hfound).1
  findToken ty hty y hy := by
    rw [findToken_eq h, List.mem_filter, beq_iff_eq] at hy
    rw [isTrivia_eq_contains hy.2, hty]

/-- **What is found and what is listed.**  The nodes of a rule are those of the listed elements that have the rule.  The
tokens of a type are those of all elements that have the type; if the type is not trivia, they are those of the listed
elements, and if it is, all of them are trivia and none is listed.  Apart from them, no query gives trivia.

Each listed element is found by exactly one symbol, unless it is an error node, the node around a file, a token that the
language does not know, or a stray node; and those are found by none. -/
theorem queries_agree {tokens rules : Nat} (h : ElementTypes.mk? tokens rules = .ok q.language.elements)
    (hroot : q.tree.green.isNode = true) :
    (∀ r, q.findRule r = (q.descendants q.root).filter fun x => q.ruleIndexOf? x == some r) ∧
    (∀ ty, q.findToken ty = q.root.preorder.filter fun x => q.tokenTypeOf? x == some ty) ∧
    (∀ ty, q.language.trivia.contains ty = false →
      q.findToken ty = (q.descendants q.root).filter fun x => q.tokenTypeOf? x == some ty) ∧
    (∀ ty, q.language.trivia.contains ty = true →
      (∀ x ∈ q.findToken ty, q.isTrivia x = true) ∧ ∀ x ∈ q.descendants q.root, q.tokenTypeOf? x ≠ some ty) ∧
    q.HidesTrivia ∧
    ∀ x ∈ q.descendants q.root,
      ((∃! s, q.FoundBy x s) ↔ ¬ (isError x = true ∨ (x.isNode = true ∧ x.kind = .file) ∨
        (x.isNode = false ∧ q.tokenTypeOf? x = none) ∨ q.Stray x)) ∧
      ((∃ s, q.FoundBy x s) → ∃! s, q.FoundBy x s) := by
  obtain ⟨hfits, -, -⟩ := ElementTypes.fits_of_mk h
  refine ⟨fun r => ?_, findToken_eq hfits, fun ty hty => ?_, fun ty hty => ⟨fun x hx => ?_, fun x hx htype => ?_⟩,
    hidesTrivia hfits hroot, fun x hx => ?_⟩
  · rw [findRule_eq hfits, filter_descendants]
    intro y hy
    rw [beq_iff_eq, ruleIndexOf?_eq_some_iff hfits] at hy
    exact isTrivia_of_isNode hy.1
  · rw [findToken_eq hfits, filter_descendants]
    intro y hy
    rw [isTrivia_eq_contains (beq_iff_eq.mp hy), hty]
  · rw [findToken_eq hfits, List.mem_filter, beq_iff_eq] at hx
    rw [isTrivia_eq_contains hx.2, hty]
  · have hlisted := (mem_descendants_iff.mp hx).2
    rw [isTrivia_eq_contains htype, hty] at hlisted
    cases hlisted
  · simp only [foundBy_iff hfits (mem_descendants_iff.mp hx).1, ← symbolOf?_eq_none_iff hfits]
    cases q.symbolOf? x with
    | none => simp
    | some s => simp

/-- Two names with a blank between them. -/
theorem queries_agree_names : ∃ q : Query, q.language = Sample.language ∧ Sample.parse "x y" = .ok q.tree ∧
    ElementTypes.mk? 20 9 = .ok q.language.elements ∧ q.tree.green.isNode = true ∧ q.HidesTrivia ∧
    q.findToken Sample.ident =
      (q.descendants q.root).filter (fun x => q.tokenTypeOf? x == some Sample.ident) ∧
    ∀ x ∈ q.descendants q.root, (∃ s, q.FoundBy x s) → ∃! s, q.FoundBy x s := by
  have hrun : ∃ t, Sample.parse "x y" = .ok t ∧ t.green.isNode = true := by decide +kernel
  obtain ⟨t, hparse, hnode⟩ := hrun
  have hmk : ElementTypes.mk? 20 9 = .ok Sample.language.elements := rfl
  have hident : Sample.language.trivia.contains Sample.ident = false := by decide
  obtain ⟨-, -, htoken, -, hhides, hfound⟩ := queries_agree (q := ⟨t, Sample.language⟩) hmk hnode
  exact ⟨⟨t, Sample.language⟩, rfl, hparse, hmk, hnode, hhides, htoken Sample.ident hident,
    fun x hx => (hfound x hx).2⟩

/-- **Blanks are found.**  The blank between two names is not listed, but looking for blanks gives it. -/
theorem findToken_gives_trivia : ∃ q : Query, q.language = Sample.language ∧ Sample.parse "x y" = .ok q.tree ∧
    (q.findToken Sample.blank).map Located.span = [⟨1, 1⟩] ∧ (q.findToken Sample.blank).all q.isTrivia = true ∧
    ((q.descendants q.root).filter fun x => q.tokenTypeOf? x == some Sample.blank).map Located.span = [] := by
  have hrun : ∃ t, Sample.parse "x y" = .ok t ∧
      let q : Query := ⟨t, Sample.language⟩
      (q.findToken Sample.blank).map Located.span = [⟨1, 1⟩] ∧ (q.findToken Sample.blank).all q.isTrivia = true ∧
        ((q.descendants q.root).filter fun x => q.tokenTypeOf? x == some Sample.blank).map Located.span = [] := by
    decide +kernel
  obtain ⟨t, hparse, hfound⟩ := hrun
  exact ⟨⟨t, Sample.language⟩, rfl, hparse, hfound⟩

end TreeProjection.Query
