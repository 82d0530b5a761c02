import TreeProjection.Proofs.Reading
import TreeProjection.Proofs.Sample.Rules
import TreeProjection.Proofs.Sample.Shape

/-! # What a tape may go on with

A recognizer without memory of its own knows a part of a sentence: the types that it has passed, and perhaps some
that it has looked at.  What may come after them is told by the phrases that are still to be recognized, from the
innermost rule outwards.

* `Sample.After` — a phrase, and then what may come after it.
* `Tape.word` — the types from one place of a tape up to another.
* `Sample.Viable` — the beginnings of sentences.
* `Sample.Awaits` — what may come at a place of a tape is told exactly.
* `Sample.Awaits.advance`, `Sample.Awaits.choose`, `Sample.Awaits.lookAhead` — matching, deciding, looking ahead.
* `Sample.Awaits.refuted` — where nothing that may come fits the token that is there. -/

namespace TreeProjection

/-! ## The types on a tape -/

namespace Tape

variable (x : Tape) {i j k : Nat}

/-- The types of all tokens, the end included. -/
def types : List TokenType := x.all.map Token.ty

/-- **The types from one place up to another.** -/
def word (i j : Nat) : List TokenType := (x.types.take j).drop i

@[simp] theorem length_types : x.types.length = x.size + 1 := by simp [types]

/-- The type at a place. -/
theorem getElem?_types (h : i ≤ x.size) : x.types[i]? = some (x.type i) := by
  have hlt : i < x.all.length := by
    rw [x.length_all]
    omega
  simp only [types, List.getElem?_map, type, token, List.getElem?_eq_getElem hlt, Option.map_some,
    Option.getD_some]

/-- There is nothing between a place and places before it. -/
theorem word_of_le (h : j ≤ i) : x.word i j = [] := by
  rw [word, List.drop_eq_nil_iff, List.length_take]
  omega

/-- The types up to one place, and from there on. -/
theorem word_append (hij : i ≤ j) (hjk : j ≤ k) : x.word i j ++ x.word j k = x.word i k := by
  have htake : x.types.take j = (x.types.take k).take j := by
    rw [List.take_take, Nat.min_eq_left hjk]
  have hdrop : (x.types.take k).drop j = ((x.types.take k).drop i).drop (j - i) := by
    rw [List.drop_drop, Nat.add_sub_cancel' hij]
  rw [word, word, word, htake, List.drop_take, hdrop]
  exact List.take_append_drop _ _

/-- The first type of a word is that of the place where it begins. -/
theorem word_eq_cons (hi : i ≤ x.size) (hij : i < j) :
    x.word i j = x.type i :: x.word (i + 1) j := by
  rw [word, word, List.drop_eq_getElem_cons (by simp; omega), List.getElem_take]
  have := x.getElem?_types hi
  rw [List.getElem?_eq_getElem (by simp; omega), Option.some.injEq] at this
  rw [this]

/-- The word of a single place. -/
theorem word_succ (hi : i ≤ x.size) : x.word i (i + 1) = [x.type i] := by
  rw [x.word_eq_cons hi (Nat.lt_succ_self i), x.word_of_le (Nat.le_refl _)]

end Tape

namespace Sample

open Phrase

variable {a b : Phrase} {K M N : List TokenType → Prop} {t ty : TokenType} {z : List TokenType}

/-! ## Phrases and what may come after them -/

/-- **A phrase, and then what may come after it.** -/
def After (a : Phrase) (K : List TokenType → Prop) (z : List TokenType) : Prop :=
  ∃ u v, Derives a u ∧ K v ∧ z = u ++ v

/-- What is derived, and what comes after it. -/
theorem Derives.after {u v : List TokenType} (h : Derives a u) (hv : K v) : After a K (u ++ v) :=
  ⟨u, v, h, hv, rfl⟩

/-- A token comes first. -/
theorem after_token : After (token ty) K z ↔ ∃ v, K v ∧ z = ty :: v := by
  constructor
  · rintro ⟨u, v, h, hv, rfl⟩
    cases h with
    | token ty => exact ⟨v, hv, rfl⟩
  · rintro ⟨v, hv, rfl⟩
    exact (Derives.token ty).after hv

@[simp] theorem after_token_cons : After (token ty) K (t :: z) ↔ t = ty ∧ K z := by
  rw [after_token]
  constructor
  · rintro ⟨v, hv, ⟨⟩⟩
    exact ⟨rfl, hv⟩
  · rintro ⟨rfl, h⟩
    exact ⟨z, h, rfl⟩

/-- A rule is its right-hand side. -/
theorem after_rule (r : RuleIndex) : After (rule r) K = After (rhs r) K := by
  funext z
  refine propext ⟨?_, ?_⟩
  · rintro ⟨u, v, h, hv, rfl⟩
    cases h with
    | rule h => exact h.after hv
  · rintro ⟨u, v, h, hv, rfl⟩
    exact (Derives.rule h).after hv

@[simp] theorem after_empty : After .empty K = K := by
  funext z
  refine propext ⟨?_, fun h => Derives.empty.after h⟩
  rintro ⟨u, v, h, hv, rfl⟩
  cases h with
  | empty => exact hv

/-- After one of two phrases comes the other. -/
@[simp] theorem after_seq : After (seq a b) K = After a (After b K) := by
  funext z
  refine propext ⟨?_, ?_⟩
  · rintro ⟨u, v, h, hv, rfl⟩
    cases h with
    | seq ha hb =>
        rw [List.append_assoc]
        exact ha.after (hb.after hv)
  · rintro ⟨u, _, ha, ⟨w, v, hb, hv, rfl⟩, rfl⟩
    rw [← List.append_assoc]
    exact (Derives.seq ha hb).after hv

/-- One of two phrases, or the other. -/
@[simp] theorem after_alt : After (alt a b) K z ↔ After a K z ∨ After b K z := by
  constructor
  · rintro ⟨u, v, h, hv, rfl⟩
    cases h with
    | left h => exact .inl (h.after hv)
    | right h => exact .inr (h.after hv)
  · rintro (⟨u, v, h, hv, rfl⟩ | ⟨u, v, h, hv, rfl⟩)
    · exact (Derives.left h).after hv
    · exact (Derives.right h).after hv

/-- Once more, or not. -/
theorem after_many : After (many a) K z ↔ After a (After (many a) K) z ∨ K z := by
  constructor
  · rintro ⟨u, v, h, hv, rfl⟩
    cases h with
    | none => exact .inr hv
    | more ha hmany =>
        rw [List.append_assoc]
        exact .inl (ha.after (hmany.after hv))
  · rintro (⟨u, _, ha, ⟨w, v, hmany, hv, rfl⟩, rfl⟩ | h)
    · rw [← List.append_assoc]
      exact (Derives.more ha hmany).after hv
    · exact Derives.none.after h

/-- Something comes after a phrase if something can come after it. -/
theorem exists_of_after (h : ∃ z, After a K z) : ∃ z, K z := by
  obtain ⟨z, u, v, -, hv, -⟩ := h
  exact ⟨v, hv⟩

/-- Something comes after a phrase that stands for something, if something can come after it. -/
theorem Derives.exists_after {u : List TokenType} (h : Derives a u) (hK : ∃ z, K z) :
    ∃ z, After a K z := by
  obtain ⟨v, hv⟩ := hK
  exact ⟨u ++ v, h.after hv⟩

/-- What begins with given types and comes before something is what comes before it and begins with them. -/
theorem prefix_of_after_beginning {types : List TokenType} (h : After (beginning types a) K z) :
    types <+: z ∧ After a K z := by
  obtain ⟨u, v, hu, hv, rfl⟩ := h
  cases hu with
  | beginning hu hbegins => exact ⟨hbegins.trans (List.prefix_append _ _), hu.after hv⟩

/-! ## What words begin with -/

/-- **What words begin with**: each of them begins with one of the given types. -/
def Begins (heads : List TokenType) (K : List TokenType → Prop) : Prop :=
  ∀ z, K z → ∃ t ∈ heads, ∃ v, z = t :: v

namespace Begins

variable {heads heads' : List TokenType}

/-- Words that begin with some types begin with some of more. -/
theorem mono (h : Begins heads K) (hsub : heads ⊆ heads') : Begins heads' K := by
  intro z hz
  obtain ⟨t, ht, v, rfl⟩ := h z hz
  exact ⟨t, hsub ht, v, rfl⟩

/-- No word begins with another type. -/
theorem not_cons (h : Begins heads K) (ht : t ∉ heads) (z : List TokenType) : ¬ K (t :: z) := by
  intro hz
  obtain ⟨t', ht', v, heq⟩ := h _ hz
  rw [(List.cons.inj heq).1] at ht
  exact ht ht'

/-- What comes after a phrase that is never empty begins as the phrase does. -/
theorem after (h : Begins heads (Derives a)) (K : List TokenType → Prop) :
    Begins heads (After a K) := by
  rintro z ⟨u, v, hu, -, rfl⟩
  obtain ⟨t, ht, w, rfl⟩ := h u hu
  exact ⟨t, ht, w ++ v, rfl⟩

/-- A token begins with its type. -/
theorem token (h : ty ∈ heads) : Begins heads (Derives (.token ty)) := by
  intro u hu
  cases hu with
  | token ty => exact ⟨ty, h, [], rfl⟩

/-- A rule begins as its right-hand side does. -/
theorem rule {r : RuleIndex} (h : Begins heads (Derives (rhs r))) :
    Begins heads (Derives (.rule r)) := by
  intro u hu
  cases hu with
  | rule hu => exact h u hu

/-- Two phrases begin as the first of them does, if that is never empty. -/
theorem seq (h : Begins heads (Derives a)) : Begins heads (Derives (.seq a b)) := by
  intro u hu
  cases hu with
  | seq ha hb =>
      obtain ⟨t, ht, v, rfl⟩ := h _ ha
      exact ⟨t, ht, _, rfl⟩

/-- One of two phrases begins as they do. -/
theorem alt (ha : Begins heads (Derives a)) (hb : Begins heads (Derives b)) :
    Begins heads (Derives (.alt a b)) := by
  intro u hu
  cases hu with
  | left h => exact ha u h
  | right h => exact hb u h

/-- A phrase that begins with a type begins with it. -/
theorem beginning {types : List TokenType} (h : t ∈ heads) :
    Begins heads (Derives (.beginning (t :: types) a)) := by
  intro u hu
  cases hu with
  | beginning _ hbegins =>
      obtain ⟨v, rfl⟩ := hbegins
      exact ⟨t, h, types ++ v, rfl⟩

/-- A phrase any number of times begins as the phrase does, or as what comes after it does. -/
theorem many (ha : Begins heads (Derives a)) (hK : Begins heads K) :
    Begins heads (After (.many a) K) := by
  intro z hz
  rw [after_many] at hz
  rcases hz with hz | hz
  · exact ha.after _ z hz
  · exact hK z hz

end Begins

/-! ## What the rules of the sample language begin with, and some of what they stand for -/

/-- Factors begin like expressions. -/
theorem begins_primary : Begins exprHeads (Derives (rule primaryRule)) := by
  refine .rule (.alt (.token ?_) (.alt (.token ?_) (.alt (.seq (.token ?_)) (.seq (.token ?_)))))
  all_goals decide

/-- Products begin like expressions. -/
theorem begins_term : Begins exprHeads (Derives (rule termRule)) := .rule (.seq begins_primary)

/-- What expressions begin with. -/
theorem begins_expr : Begins exprHeads (Derives (rule exprRule)) := .rule (.seq begins_term)

/-- Arguments begin like expressions. -/
theorem begins_args : Begins exprHeads (Derives (rule argsRule)) := .rule (.seq begins_expr)

/-- What blocks begin with. -/
theorem begins_block : Begins [lbrace] (Derives (rule blockRule)) :=
  .rule (.seq (.token List.mem_cons_self))

/-- What statements begin with. -/
theorem begins_statement : Begins statementHeads (Derives (rule statementRule)) := by
  refine .rule (.alt (.seq (.token ?_)) (.alt (.seq (.token ?_)) (.alt (.seq (.token ?_))
    (.alt (begins_block.mono ?_) (.seq (.beginning ?_))))))
  all_goals decide

/-- What functions begin with. -/
theorem begins_function : Begins [func] (Derives (rule functionRule)) :=
  .rule (.seq (.token List.mem_cons_self))

/-- What parameters begin with. -/
theorem begins_params : Begins [ident] (Derives (rule paramsRule)) :=
  .rule (.seq (.token List.mem_cons_self))

/-- A single part makes a list of parts. -/
theorem Derives.single {sign u} (h : Derives a u) : Derives (separated sign a) u := by
  have := Derives.seq h (Derives.none (a := .seq sign a))
  rwa [List.append_nil] at this

/-- A number is a factor. -/
theorem derives_primary : Derives (rule primaryRule) [int] := .rule (.left (.token int))

/-- A factor is an expression. -/
theorem Derives.expr {u : List TokenType} (h : Derives (.rule primaryRule) u) :
    Derives (.rule exprRule) u :=
  .rule (.single (.rule (.single h)))

/-- A number is an expression. -/
theorem derives_expr : Derives (rule exprRule) [int] := derives_primary.expr

/-- A number is an argument. -/
theorem derives_args : Derives (rule argsRule) [int] := .rule (.single derives_expr)

/-- A call without arguments is an expression. -/
theorem derives_call : Derives (rule exprRule) [ident, lparen, rparen] :=
  .expr (.rule (.right (.right (.left
    (.seq (.token ident) (.right (.seq (.token lparen) (.seq (.left .empty) (.token rparen)))))))))

/-- A block without statements. -/
theorem derives_block : Derives (rule blockRule) [lbrace, rbrace] :=
  .rule (.seq (.token lbrace) (.seq .none (.token rbrace)))

/-- A statement that returns nothing. -/
theorem derives_statement : Derives (rule statementRule) [ret, semi] :=
  .rule (.right (.right (.left (.seq (.token ret) (.seq (.left .empty) (.token semi))))))

/-- A function without parameters and statements. -/
theorem derives_function :
    Derives (rule functionRule) [func, ident, lparen, rparen, lbrace, rbrace] :=
  .rule (.seq (.token func) (.seq (.token ident) (.seq (.token lparen) (.seq (.left .empty)
    (.seq (.token rparen) derives_block)))))

/-- A single parameter. -/
theorem derives_params : Derives (rule paramsRule) [ident] := .rule (.single (.token ident))

/-- An empty source. -/
theorem derives_script : Derives (rule scriptRule) [.eof] := .rule (.seq .none (.token .eof))

/-! ## What may come at a place of a tape -/

/-- **The beginnings of sentences.** -/
def Viable (u : List TokenType) : Prop := ∃ z, Sentence (u ++ z)

/-- **A place where a tape goes wrong**: the types before it are the beginning of a sentence, and with the type at
the place they are not. -/
structure Refuted (x : Tape) (m : Nat) : Prop where
  /-- It is a place of the tape. -/
  le_size : m ≤ x.size
  /-- The types before it are the beginning of a sentence. -/
  before : Viable (x.word 0 m)
  /-- Those up to it are not. -/
  upTo : ¬ Viable (x.word 0 (m + 1))

/-- **What may come at a place of a tape is told exactly**, as far as one has looked: the words `M` that agree with
the tape up to the place `e` continue the types that were passed to sentences, and each continuation that
agrees with the tape up to there, and with the type at the place, is one of them. -/
structure Awaits (x : Tape) (e i : Nat) (M : List TokenType → Prop) : Prop where
  /-- The place is one of the tape. -/
  le_size : i ≤ x.size
  /-- Something may come. -/
  possible : ∃ z, M z ∧ x.word i e <+: z
  /-- What is told may come. -/
  sound : ∀ z, M z → x.word i e <+: z → Sentence (x.word 0 i ++ z)
  /-- What may come is told. -/
  complete : ∀ z, x.word i (max e (i + 1)) <+: z → Sentence (x.word 0 i ++ z) → M z

namespace Awaits

variable {x : Tape} {e e' i : Nat}

/-- At the start, sentences may come. -/
theorem start (x : Tape) : Awaits x 0 0 (After (rule scriptRule) (· = [])) where
  le_size := Nat.zero_le _
  possible := ⟨_, derives_script.after rfl, List.nil_prefix⟩
  sound := by
    rintro z ⟨u, v, hu, rfl, rfl⟩ -
    rw [List.append_nil]
    exact hu
  complete := by
    intro z _ hz
    rw [← List.append_nil z]
    exact Derives.after hz rfl

/-- One type more has been passed. -/
theorem word_snoc (hi : i ≤ x.size) : x.word 0 (i + 1) = x.word 0 i ++ [x.type i] := by
  rw [← x.word_append (Nat.zero_le i) (Nat.le_succ i), x.word_succ hi]

/-- When a tape goes on with a word that begins with a type. -/
theorem word_prefix_cons (hi : i ≤ x.size) :
    x.word i e <+: t :: z ↔ e ≤ i ∨ (x.type i = t ∧ x.word (i + 1) e <+: z) := by
  rcases Nat.lt_or_ge i e with hlt | hle
  · rw [x.word_eq_cons hi hlt, List.cons_prefix_cons]
    simp [Nat.not_le_of_lt hlt]
  · simp [x.word_of_le hle, hle]

/-- Beyond what has been looked at nothing is known. -/
theorem behind (h : Awaits x e i M) (he : e ≤ i) (he' : e' ≤ i) : Awaits x e' i M where
  le_size := h.le_size
  possible := by
    rw [x.word_of_le he', ← x.word_of_le he]
    exact h.possible
  sound := by
    rw [x.word_of_le he', ← x.word_of_le he]
    exact h.sound
  complete := by
    rw [show max e' (i + 1) = max e (i + 1) by omega]
    exact h.complete

/-- One type more is known, and what may come after it. -/
theorem next (h : Awaits x e i M) (hlt : i < x.size) (hsome : ∃ z, M (x.type i :: z)) :
    Awaits x e (i + 1) fun z => M (x.type i :: z) where
  le_size := hlt
  possible := by
    rcases Nat.lt_or_ge i e with hie | hei
    · obtain ⟨z, hz, hagrees⟩ := h.possible
      rw [x.word_eq_cons h.le_size hie] at hagrees
      obtain ⟨w, rfl⟩ := hagrees
      exact ⟨_, hz, List.prefix_append _ _⟩
    · obtain ⟨z, hz⟩ := hsome
      rw [x.word_of_le (Nat.le_succ_of_le hei)]
      exact ⟨z, hz, List.nil_prefix⟩
  sound := by
    intro z hz hagrees
    have := h.sound _ hz ((word_prefix_cons h.le_size).mpr (.inr ⟨rfl, hagrees⟩))
    rwa [word_snoc h.le_size, List.append_assoc]
  complete := by
    intro z hagrees hsentence
    rw [word_snoc h.le_size, List.append_assoc] at hsentence
    refine h.complete _ ((word_prefix_cons h.le_size).mpr (.inr ⟨rfl, ?_⟩)) hsentence
    rcases Nat.lt_or_ge (i + 1) e with hlt | hle
    · rwa [show max e (i + 1) = max e (i + 1 + 1) by omega]
    · rw [x.word_of_le (by omega)]
      exact List.nil_prefix

/-- **A token has been matched.** -/
theorem advance (h : Awaits x e i (After (token ty) K)) (hty : x.type i = ty) (hlt : i < x.size) :
    Awaits x e (i + 1) K := by
  obtain ⟨z, hz, -⟩ := h.possible
  obtain ⟨v, hv, rfl⟩ := after_token.mp hz
  have hnext := h.next hlt ⟨v, after_token_cons.mpr ⟨hty, hv⟩⟩
  have hK : (fun z => After (token ty) K (x.type i :: z)) = K := by
    funext z
    rw [after_token_cons, hty, eq_self, true_and]
  rwa [hK] at hnext

/-- **Nothing that may come fits the type at the place.** -/
theorem refuted (h : Awaits x e i M) (hno : ∀ z, ¬ M (x.type i :: z)) : Refuted x i := by
  obtain ⟨z, hz, hagrees⟩ := h.possible
  refine ⟨h.le_size, ⟨z, h.sound z hz hagrees⟩, ?_⟩
  rintro ⟨v, hv⟩
  rw [word_snoc h.le_size, List.append_assoc] at hv
  rcases Nat.lt_or_ge i e with hlt | hle
  · rw [x.word_eq_cons h.le_size hlt] at hagrees
    obtain ⟨w, rfl⟩ := hagrees
    exact hno _ hz
  · refine hno v (h.complete _ ?_ hv)
    refine (word_prefix_cons h.le_size).mpr (.inr ⟨rfl, ?_⟩)
    rw [x.word_of_le (by omega)]
    exact List.nil_prefix

/-- **A decision.** What is left out does not begin with the type at the place. -/
theorem choose (h : Awaits x e i M) (hsub : ∀ z, N z → M z)
    (hhead : ∀ z, M (x.type i :: z) → N (x.type i :: z)) (hne : ∃ z, N z) : Awaits x e i N where
  le_size := h.le_size
  possible := by
    rcases Nat.lt_or_ge i e with hlt | hle
    · obtain ⟨z, hz, hagrees⟩ := h.possible
      rw [x.word_eq_cons h.le_size hlt] at hagrees ⊢
      obtain ⟨w, rfl⟩ := hagrees
      exact ⟨_, hhead _ hz, List.prefix_append _ _⟩
    · obtain ⟨z, hz⟩ := hne
      rw [x.word_of_le hle]
      exact ⟨z, hz, List.nil_prefix⟩
  sound := fun z hz => h.sound z (hsub z hz)
  complete := by
    intro z hagrees hsentence
    have hz := h.complete z hagrees hsentence
    rw [x.word_eq_cons h.le_size (by omega)] at hagrees
    obtain ⟨w, rfl⟩ := hagrees
    exact hhead _ hz

/-- The first of two possibilities. -/
theorem left {L : List TokenType → Prop} (h : Awaits x e i L) (hL : ∀ z, L z ↔ M z ∨ N z)
    (hno : ∀ z, ¬ N (x.type i :: z)) (hne : ∃ z, M z) : Awaits x e i M :=
  h.choose (fun z hz => (hL z).mpr (.inl hz))
    (fun z hz => ((hL _).mp hz).resolve_right (hno z)) hne

/-- The second of two possibilities. -/
theorem right {L : List TokenType → Prop} (h : Awaits x e i L) (hL : ∀ z, L z ↔ M z ∨ N z)
    (hno : ∀ z, ¬ M (x.type i :: z)) (hne : ∃ z, N z) : Awaits x e i N :=
  h.left (fun z => (hL z).trans Or.comm) hno hne

/-- **Looking further ahead.** Only words that agree with what is seen matter. -/
theorem lookAhead (h : Awaits x e i M) (he : e ≤ e') (hi : i < e')
    (hiff : ∀ z, x.word i e' <+: z → (M z ↔ N z))
    (hne : e < e' → ∃ z, N z ∧ x.word i e' <+: z) : Awaits x e' i N := by
  have hagrees : ∀ {z}, x.word i e' <+: z → ∀ j ≤ e', x.word i j <+: z := by
    intro z hz j hj
    rcases Nat.le_total i j with hij | hij
    · rw [← x.word_append hij hj] at hz
      exact (List.prefix_append _ _).trans hz
    · rw [x.word_of_le hij]
      exact List.nil_prefix
  refine ⟨h.le_size, ?_, fun z hz hz' => ?_, fun z hz hsentence => ?_⟩
  · rcases Nat.lt_or_eq_of_le he with hlt | rfl
    · exact hne hlt
    · obtain ⟨z, hz, hz'⟩ := h.possible
      exact ⟨z, (hiff z hz').mp hz, hz'⟩
  · exact h.sound z ((hiff z hz').mpr hz) (hagrees hz' e he)
  · rw [Nat.max_eq_left hi] at hz
    exact (hiff z hz).mp (h.complete z (hagrees hz _ (by omega)) hsentence)

end Awaits

end Sample

end TreeProjection
