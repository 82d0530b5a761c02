import Mathlib.Data.List.Nodup
import TreeProjection.Proofs.Acting
import TreeProjection.Proofs.Sample.Lookahead
import TreeProjection.Proofs.Sample.Shape

/-! # What follow sets promise

Where a token is expected or a rule is invoked, the grammar states which types may come next, and leaves it to the
callers where the rule ends there.  A missing token is made up on the strength of that statement.  Here it is compared
with the rules: what is stated to follow does follow, and so a repair by one token leaves the beginning of a sentence.

* `Sample.Starts` — each of some types begins a word.
* `Sample.Permits` — what may follow, as the callers see it, may come.
* `Sample.Heralds` — a set states no more than a phrase can begin with.
* `Sample.Mends` — the repair that a report tells of is sound.
* `Sample.Awaits.mends` — whatever is reported where a token is expected is sound. -/

namespace TreeProjection.Sample

open Phrase

variable {x : Tape} {a b : Phrase} {K M : List TokenType → Prop} {t ty : TokenType}
  {e i : Nat} {heads heads' : List TokenType} {set : TokenSet} {callers : List TokenSet}

/-! ## Types that begin words -/

/-- **Each of some types begins a word.** -/
def Starts (heads : List TokenType) (K : List TokenType → Prop) : Prop := ∀ t ∈ heads, ∃ z, K (t :: z)

namespace Starts

/-- One type begins a word. -/
theorem single {z : List TokenType} (h : K (t :: z)) : Starts [t] K := by
  intro t' ht
  rw [List.mem_singleton.mp ht]
  exact ⟨z, h⟩

/-- One more type begins a word. -/
theorem cons {z : List TokenType} (h : K (t :: z)) (hrest : Starts heads K) : Starts (t :: heads) K :=
  List.forall_mem_cons.mpr ⟨⟨z, h⟩, hrest⟩

/-- Some types and some others. -/
theorem append (h : Starts heads K) (h' : Starts heads' K) : Starts (heads ++ heads') K :=
  List.forall_mem_append.mpr ⟨h, h'⟩

/-- What is a word of one kind is a word of another. -/
theorem mono (h : Starts heads K) (himp : ∀ z, K z → M z) : Starts heads M :=
  fun t ht => (h t ht).imp fun z hz => himp (t :: z) hz

/-- The only type that words begin with begins one, if there are words. -/
theorem of_begins (h : Begins [t] K) (hK : ∃ z, K z) : Starts [t] K := by
  obtain ⟨z, hz⟩ := hK
  obtain ⟨t', ht, v, rfl⟩ := h z hz
  rw [List.mem_singleton.mp ht] at hz
  exact .single hz

/-- What begins a phrase begins what comes of it. -/
theorem after (h : Starts heads (Derives a)) (hK : ∃ z, K z) : Starts heads (After a K) := by
  intro t ht
  obtain ⟨u, hu⟩ := h t ht
  obtain ⟨z, hz⟩ := hK
  exact ⟨u ++ z, hu.after hz⟩

/-- What begins the first of two phrases begins both. -/
theorem seq {v : List TokenType} (h : Starts heads (Derives a)) (hb : Derives b v) :
    Starts heads (Derives (.seq a b)) := by
  intro t ht
  obtain ⟨u, hu⟩ := h t ht
  exact ⟨u ++ v, .seq hu hb⟩

/-- What begins the second of two phrases begins both, if the first may be nothing. -/
theorem skip (h : Starts heads (Derives b)) (ha : Derives a []) : Starts heads (Derives (.seq a b)) :=
  h.mono fun _ hz => .seq ha hz

/-- What begins a phrase begins a loop of it. -/
theorem many (h : Starts heads (Derives a)) : Starts heads (Derives (.many a)) := by
  intro t ht
  obtain ⟨u, hu⟩ := h t ht
  refine ⟨u, ?_⟩
  rw [← List.append_nil (t :: u)]
  exact .more hu .none

/-- What begins a part begins a list of parts. -/
theorem separated {sign : Phrase} (h : Starts heads (Derives a)) :
    Starts heads (Derives (.separated sign a)) := h.seq .none

end Starts

/-- Every type that begins a factor. -/
theorem starts_primary : Starts exprHeads (Derives (rule primaryRule)) := by
  have hcall : Derives (Phrase.optional (all [token lparen, Phrase.optional (rule argsRule), token rparen])) [] :=
    .left .empty
  have hinner := Derives.seq (.token lparen) (.seq derives_expr (.token rparen))
  refine .cons (.rule (.left (.token int))) (.cons (.rule (.right (.left (.token string)))) ?_)
  exact .cons (.rule (.right (.right (.left (.seq (.token ident) hcall)))))
    (.single (.rule (.right (.right (.right hinner)))))

/-- Every type that begins a product. -/
theorem starts_term : Starts exprHeads (Derives (rule termRule)) :=
  starts_primary.separated.mono fun _ hz => .rule hz

/-- Every type that begins an expression. -/
theorem starts_expr : Starts exprHeads (Derives (rule exprRule)) :=
  starts_primary.mono fun _ hz => hz.expr

/-- Every type that begins arguments. -/
theorem starts_args : Starts exprHeads (Derives (rule argsRule)) :=
  starts_expr.separated.mono fun _ hz => .rule hz

/-- Every type that begins a statement. -/
theorem starts_statement : Starts statementHeads (Derives (rule statementRule)) := by
  have hassign : Derives (all [token ident, token assign, rule exprRule, token semi]) [ident, assign, int, semi] :=
    .seq (.token ident) (.seq (.token assign) (.seq derives_expr (.token semi)))
  refine .cons (.rule (.left (.seq (.token var) hassign))) (.cons derives_statement ?_)
  exact .cons (.rule (.right (.right (.right (.left derives_block))))) (.single (.rule (.right (.left hassign))))

/-! ## What the callers say -/

/-- **What may follow**, where the rules under way have been invoked with given sets. -/
def following (callers : List TokenSet) (set : TokenSet) : TokenSet :=
  if set.endOfRule then Parser.resolveFollow set.withoutEndOfRule callers else set

/-- It is what a parser takes to follow. -/
theorem following_eq {σ : Type} (p : Parser σ) (set : TokenSet) :
    p.viableFollow set = following p.follow set := rfl

/-- Nothing is added by no members. -/
theorem union_ruleEnd (s : TokenSet) : ruleEnd.withoutEndOfRule.union s = s := by
  refine TokenSet.ext_of_contains (fun ty => ?_) (Bool.false_or _)
  have hnone : ruleEnd.withoutEndOfRule.contains ty = false := TokenSet.contains_empty ty
  rw [TokenSet.contains_union, hnone, Bool.false_or]

/-- What is stated first is one part of what may follow, and what the callers say is the other. -/
theorem contains_resolveFollow (acc : TokenSet) (t : TokenType) :
    (Parser.resolveFollow acc callers).contains t =
      (acc.contains t || (Parser.resolveFollow ruleEnd.withoutEndOfRule callers).contains t) := by
  induction callers generalizing acc with
  | nil =>
      have hnone : ruleEnd.withoutEndOfRule.contains t = false := TokenSet.contains_empty t
      simp only [Parser.resolveFollow, TokenSet.contains_insert (.inl rfl), hnone, Bool.false_or]
  | cons s callers ih =>
      simp only [Parser.resolveFollow, union_ruleEnd]
      split
      · rw [ih, ih s.withoutEndOfRule, TokenSet.contains_union, Bool.or_assoc]
      · rw [TokenSet.contains_union]

/-- At the end of a rule that was invoked with a set, what follows is what that set says. -/
theorem following_invoked (callers : List TokenSet) (set : TokenSet) :
    following (set :: callers) ruleEnd = following callers set := by
  change Parser.resolveFollow ruleEnd.withoutEndOfRule (set :: callers) = following callers set
  rw [Parser.resolveFollow, union_ruleEnd, following]
  split
  · rfl
  · rename_i h
    rw [TokenSet.withoutEndOfRule, ← Bool.eq_false_iff.mpr h]

/-- What may follow is stated, or the callers say so where the rule may end. -/
theorem contains_following (h : (following callers set).contains t = true) :
    set.contains t = true ∨ (set.endOfRule = true ∧ (following callers ruleEnd).contains t = true) := by
  unfold following at h
  split at h
  · rename_i hmarked
    rw [contains_resolveFollow, Bool.or_eq_true] at h
    exact h.imp_right fun h => ⟨hmarked, h⟩
  · exact .inl h

/-- **What may follow, as the callers see it, may come.** -/
def Permits (callers : List TokenSet) (set : TokenSet) (K : List TokenType → Prop) : Prop :=
  ∀ t, (following callers set).contains t = true → ∃ z, K (t :: z)

/-- Inside a rule, the set that it was invoked with comes at its end. -/
theorem permits_invoked : Permits (set :: callers) ruleEnd K ↔ Permits callers set K := by
  rw [Permits, following_invoked, Permits]

/-- The member of a set of one type, in a list. -/
theorem contains_single_iff (hfits : TokenSet.Fits ty) (t : TokenType) :
    (TokenSet.single ty).contains t = true ↔ t ∈ [ty] := by
  rw [TokenSet.contains_single hfits, beq_iff_eq, List.mem_singleton]

/-- Where a rule cannot end, nothing is left to the callers. -/
theorem permits_of_starts (hclosed : set.endOfRule = false)
    (hset : ∀ t, set.contains t = true ↔ t ∈ heads) (h : Starts heads K) : Permits callers set K := by
  intro t ht
  rcases contains_following ht with ht | ⟨hmarked, -⟩
  · exact h t ((hset t).mp ht)
  · rw [hclosed] at hmarked
    cases hmarked

/-- **A set states no more than a phrase can begin with**, and leaves it to the callers only if the phrase may be
nothing. -/
structure Heralds (set : TokenSet) (b : Phrase) : Prop where
  /-- Each member begins the phrase. -/
  heads : ∀ t, set.contains t = true → ∃ u, Derives b (t :: u)
  /-- With the mark, the phrase may be nothing. -/
  nil : set.endOfRule = true → Derives b []

namespace Heralds

/-- The types that begin a phrase. -/
theorem of_starts (hset : ∀ t, set.contains t = true ↔ t ∈ heads) (h : Starts heads (Derives b))
    (hclosed : set.endOfRule = false) : Heralds set b where
  heads t ht := h t ((hset t).mp ht)
  nil hmarked := by
    rw [hclosed] at hmarked
    cases hmarked

/-- The types that begin a phrase, and the callers, if it may be nothing. -/
theorem withEndOfRule (hset : ∀ t, set.contains t = true ↔ t ∈ heads) (h : Starts heads (Derives b))
    (hnil : Derives b []) : Heralds set.withEndOfRule b where
  heads t ht := h t ((hset t).mp ht)
  nil _ := hnil

/-- A type that begins a phrase. -/
theorem single {u : List TokenType} (hfits : TokenSet.Fits ty) (hclosed : (TokenSet.single ty).endOfRule = false)
    (h : Derives b (ty :: u)) : Heralds (.single ty) b :=
  .of_starts (contains_single_iff hfits) (.single h) hclosed

/-- **What a set states before a phrase may come**, if what the callers say may come after the phrase. -/
theorem permits (h : Heralds set b) (hne : ∃ z, K z) (hK : Permits callers ruleEnd K) :
    Permits callers set (After b K) := by
  intro t ht
  rcases contains_following ht with ht | ⟨hmarked, ht⟩
  · obtain ⟨u, hu⟩ := h.heads t ht
    obtain ⟨z, hz⟩ := hne
    exact ⟨u ++ z, hu.after hz⟩
  · obtain ⟨v, hv⟩ := hK t ht
    exact ⟨v, (h.nil hmarked).after hv⟩

end Heralds

/-- After a keyword or a bracket that is optional to what comes next, that may be left out. -/
theorem heralds_optional (ha : Starts exprHeads (Derives a)) (hfits : TokenSet.Fits ty)
    (hclosed : (firstExpr.insert ty).endOfRule = false) :
    Heralds (firstExpr.insert ty) (all [Phrase.optional a, token ty]) := by
  have hset : ∀ t, (firstExpr.insert ty).contains t = true ↔ t ∈ exprHeads ++ [ty] := by
    intro t
    rw [TokenSet.contains_insert hfits, Bool.or_eq_true, contains_firstExpr, beq_iff_eq, List.mem_append,
      List.mem_singleton]
  have hoptional : Starts exprHeads (Derives (Phrase.optional a)) := ha.mono fun _ => .right
  refine .of_starts hset ((hoptional.seq (.token ty)).append ?_) hclosed
  exact (Starts.single (.token ty)).skip (.left .empty)

/-- What heralds an expression heralds it also before something. -/
theorem heralds_expr {v : List TokenType} (hb : Derives b v) : Heralds firstExpr (.seq (rule exprRule) b) :=
  .of_starts (fun _ => contains_firstExpr) (starts_expr.seq hb) rfl

/-- After a name comes what a call goes on with, or nothing. -/
theorem heralds_call : Heralds (TokenSet.single lparen).withEndOfRule
    (Phrase.optional (all [token lparen, Phrase.optional (rule argsRule), token rparen])) := by
  have hcall : Derives (all [token lparen, Phrase.optional (rule argsRule), token rparen]) [lparen, rparen] :=
    .seq (.token lparen) (.seq (.left .empty) (.token rparen))
  exact .withEndOfRule (contains_single_iff (by decide)) (.single (.right hcall)) (.left .empty)

/-- After the bracket of a function come its parameters, or the other bracket. -/
theorem heralds_params : Heralds (.ofList [ident, rparen])
    (all [Phrase.optional (rule paramsRule), token rparen, rule blockRule]) := by
  have hrest : Derives (all [token rparen, rule blockRule]) [rparen, lbrace, rbrace] :=
    .seq (.token rparen) derives_block
  have hparams : Derives (all [Phrase.optional (rule paramsRule), token rparen, rule blockRule])
      [ident, rparen, lbrace, rbrace] := .seq (.right derives_params) hrest
  have hnone : Derives (all [Phrase.optional (rule paramsRule), token rparen, rule blockRule])
      [rparen, lbrace, rbrace] := .seq (.left .empty) hrest
  exact .of_starts (TokenSet.contains_ofList (by decide)) (.cons hparams (.single hnone)) rfl

/-- After the brace of a block come statements, or the other brace. -/
theorem heralds_block : Heralds blockLoop (all [many (rule statementRule), token rbrace]) := by
  refine .of_starts (fun _ => contains_blockLoop) ((starts_statement.many.seq (.token rbrace)).append ?_) rfl
  exact (Starts.single (.token rbrace)).skip .none

/-! ## Names in messages -/

/-- The types that the rules name, the end of the input apart. -/
def symbols : List TokenType :=
  [func, var, ret, lparen, rparen, lbrace, rbrace, comma, semi, assign, plus, minus, star, slash, ident, int, string]

/-- No two types are shown alike, if one of them is named by a rule. -/
theorem elementName_injective : ∀ t ∈ TokenSet.types, ∀ ty ∈ TokenType.eof :: symbols,
    vocabulary.elementName t = vocabulary.elementName ty → t = ty := by
  decide +kernel

/-- No type is listed twice. -/
theorem nodup_types : TokenSet.types.Nodup := by
  have hcodes : TokenSet.types.map (fun t => t.code.toNat) = 65535 :: List.range' 1 255 := by decide +kernel
  have hnodup : (65535 :: List.range' 1 255).Nodup :=
    List.nodup_cons.mpr ⟨by simp [List.mem_range'_1], List.nodup_range'⟩
  exact .of_map _ (hcodes ▸ hnodup)

/-- A set of one type has no other member, and not even that one if it has no place. -/
theorem eq_of_contains_single (h : (TokenSet.single ty).contains t = true) : t = ty := by
  by_cases hfits : TokenSet.Fits ty
  · rwa [TokenSet.contains_single hfits, beq_iff_eq] at h
  · rw [TokenSet.single, TokenSet.insert_of_not_fits hfits, TokenSet.contains_empty] at h
    cases h

/-- The members of a set of one type, in order. -/
theorem toList_single (t : TokenType) :
    (TokenSet.single t).toList = if t ∈ TokenSet.types then [t] else [] := by
  split
  · rename_i ht
    have hlisted : ∀ t ∈ TokenSet.types, TokenSet.Fits t := by decide +kernel
    have hcontains : (TokenSet.single t).contains = (· == t) :=
      funext (TokenSet.contains_single (hlisted t ht))
    rw [TokenSet.toList, hcontains, List.filter_beq, List.count_eq_one_of_mem nodup_types ht]
    rfl
  · rename_i ht
    refine List.filter_eq_nil_iff.mpr fun u hu hmem => ht ?_
    rwa [← eq_of_contains_single hmem]

/-- A set of one type is shown as the type, if sets list it. -/
theorem displaySet_single (v : Vocabulary) (t : TokenType) :
    v.displaySet (.single t) = if t ∈ TokenSet.types then v.elementName t else "\x7b\x7d" := by
  unfold Vocabulary.displaySet
  rw [toList_single]
  by_cases ht : t ∈ TokenSet.types
  · rw [if_pos ht, if_pos ht]
    rfl
  · rw [if_neg ht, if_neg ht]
    rfl

/-- **A set of one type is shown as no other**, if a rule names the type. -/
theorem displaySet_single_injective (hty : ty ∈ TokenType.eof :: symbols)
    (h : vocabulary.displaySet (.single t) = vocabulary.displaySet (.single ty)) : t = ty := by
  have hnone : ∀ ty ∈ TokenType.eof :: symbols,
      ty ∈ TokenSet.types ∧ vocabulary.elementName ty ≠ "\x7b\x7d" := by decide +kernel
  obtain ⟨hlisted, hne⟩ := hnone ty hty
  rw [displaySet_single, displaySet_single, if_pos hlisted] at h
  split at h
  · rename_i ht
    exact elementName_injective t ht ty hty h
  · exact absurd h.symm hne

/-- **A set that is not shown as a single type.** -/
def Several (set : TokenSet) : Prop := ∀ t, vocabulary.displaySet (.single t) ≠ vocabulary.displaySet set

/-- What is shown in braces, and not empty, is not shown as a single type. -/
theorem several_of_displaySet {text : String} (h : vocabulary.displaySet set = text)
    (hnames : ∀ t ∈ TokenSet.types, vocabulary.elementName t ≠ text) (hne : text ≠ "\x7b\x7d") :
    Several set := by
  intro t
  rw [displaySet_single, h]
  split
  · rename_i ht
    exact hnames t ht
  · exact hne.symm

/-- The guard of a block's loop expects several types. -/
theorem several_blockLoop : Several blockLoop :=
  several_of_displaySet rfl (by decide +kernel) (by decide +kernel)

/-- The guard of the outermost loop expects several types. -/
theorem several_scriptLoop : Several scriptLoop :=
  several_of_displaySet rfl (by decide +kernel) (by decide +kernel)

/-! ## Repairs -/

/-- **The repair that a report tells of is sound**: with the missing token put in, or with the extraneous one left out,
what has been seen is the beginning of a sentence. -/
structure Mends (x : Tape) (m : Nat) (r : Report) : Prop where
  /-- Without an exception, a token is missing, or one is too many where a single type or one of several types was
  expected. -/
  kind : r.exception = none →
    (∃ ty, r = .missing vocabulary (.single ty) (x.token m)) ∨
    (∃ ty, r = .extraneous vocabulary (.single ty) (x.token m)) ∨
    ∃ set, Several set ∧ r = .extraneous vocabulary set (x.token m)
  /-- A token is missing. -/
  missing : ∀ ty, r = .missing vocabulary (.single ty) (x.token m) → Viable (x.word 0 m ++ [ty, x.type m])
  /-- A token is one too many where a single type was expected. -/
  extraneous : ∀ ty, r = .extraneous vocabulary (.single ty) (x.token m) →
    m < x.size ∧ Viable (x.word 0 m ++ [x.type (m + 1)])

/-- A report of one kind is none of the other. -/
theorem extraneous_ne_missing (v : Vocabulary) (s s' : TokenSet) (t t' : Token) :
    Report.extraneous v s t ≠ .missing v s' t' := by
  intro h
  have hhead := congrArg (fun r => r.message.toList.head?) h
  simp [Report.extraneous, Report.missing, toString] at hhead

/-- Reports of missing tokens that are alike name the same. -/
theorem displaySet_of_missing {v : Vocabulary} {s s' : TokenSet} {t : Token}
    (h : Report.missing v s t = .missing v s' t) : v.displaySet s = v.displaySet s' := by
  have hmessage := congrArg Report.message h
  simpa [Report.missing, toString] using hmessage

/-- Reports of extraneous tokens that are alike expect the same. -/
theorem displaySet_of_extraneous {v : Vocabulary} {s s' : TokenSet} {t : Token}
    (h : Report.extraneous v s t = .extraneous v s' t) : v.displaySet s = v.displaySet s' := by
  have hmessage := congrArg Report.message h
  simpa [Report.extraneous, toString] using hmessage

namespace Mends

variable {m : Nat} {r : Report}

/-- A report of an exception tells of no repair. -/
theorem of_exception {exn : RecognitionException} (h : r.exception = some exn) : Mends x m r where
  kind hnone := by
    rw [h] at hnone
    cases hnone
  missing := by
    rintro ty rfl
    cases h
  extraneous := by
    rintro ty rfl
    cases h

/-- The report of a loop's guard tells of no repair by one token. -/
theorem of_several (h : Several set) : Mends x m (.extraneous vocabulary set (x.token m)) where
  kind _ := .inr (.inr ⟨set, h, rfl⟩)
  missing _ heq := absurd heq (extraneous_ne_missing _ _ _ _ _)
  extraneous ty heq := absurd (displaySet_of_extraneous heq).symm (h ty)

/-- A missing token. -/
theorem of_missing (hty : ty ∈ TokenType.eof :: symbols) (h : Viable (x.word 0 m ++ [ty, x.type m])) :
    Mends x m (.missing vocabulary (.single ty) (x.token m)) where
  kind _ := .inl ⟨ty, rfl⟩
  missing t heq := by
    rwa [displaySet_single_injective hty (displaySet_of_missing heq).symm]
  extraneous _ heq := absurd heq.symm (extraneous_ne_missing _ _ _ _ _)

/-- A token that is one too many. -/
theorem of_extraneous (hm : m < x.size) (h : Viable (x.word 0 m ++ [x.type (m + 1)])) :
    Mends x m (.extraneous vocabulary (.single ty) (x.token m)) where
  kind _ := .inr (.inl ⟨ty, rfl⟩)
  missing _ heq := absurd heq (extraneous_ne_missing _ _ _ _ _)
  extraneous _ _ := ⟨hm, h⟩

end Mends

/-- **Whatever is reported where a token is expected is sound**, if the token ahead may come whenever it is taken to
follow. -/
theorem Awaits.mends {σ : Type} [TokenSource σ] {p : Parser σ} {r : Report}
    (h : Awaits x e p.index (After (token ty) K)) (hplain : x.Plain) (hty : ty ∈ TokenType.eof :: symbols)
    (hnames : p.language.vocabulary = vocabulary)
    (hK : (p.viableFollow set).contains (x.type p.index) = true → ∃ z, K (x.type p.index :: z))
    (hne : x.type p.index ≠ ty)
    (hr : Parser.Mending x p ty set r) : Mends x p.index r := by
  obtain ⟨z, hz, hagrees⟩ := h.possible
  obtain ⟨v, hv, rfl⟩ := after_token.mp hz
  -- nothing has been seen of what comes next, as the token ahead would not agree with it
  have hnothing : e ≤ p.index := ((Awaits.word_prefix_cons h.le_size).mp hagrees).resolve_right fun h => hne h.1
  have hsentence : ∀ v, K v → Sentence (x.word 0 p.index ++ ty :: v) := by
    intro v hv
    refine h.sound _ (after_token_cons.mpr ⟨rfl, hv⟩) ?_
    rw [x.word_of_le hnothing]
    exact List.nil_prefix
  cases hr with
  | extraneous next =>
      rw [hplain.stop] at next
      have hlt : p.index < x.size := by
        refine Nat.lt_of_not_le fun hle => hne ?_
        have hend : min (p.index + 1) x.size = p.index := by
          have := h.le_size
          omega
        rwa [hend] at next
      rw [Nat.min_eq_left hlt] at next
      rw [hnames]
      refine .of_extraneous hlt ⟨v, ?_⟩
      rw [next, List.append_assoc]
      exact hsentence v hv
  | missing viable =>
      obtain ⟨w, hw⟩ := hK viable
      rw [hnames]
      refine .of_missing hty ⟨w, ?_⟩
      rw [List.append_assoc]
      exact hsentence _ hw

end TreeProjection.Sample
