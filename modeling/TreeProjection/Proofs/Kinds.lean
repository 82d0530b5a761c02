import TreeProjection.Language.Elements

/-! # Kinds and what they stand for

All kinds of a layout are smaller than the largest sixteen-bit number, so that no sum of them overflows.  Kinds of
token types and kinds of rules are then two intervals, and going from a symbol to its kind and back loses nothing.

* `ElementTypes.Fits` — the kinds fit; `ElementTypes.fits_of_mk`: those of a layout do.
* `ElementTypes.token_eq_ok_iff`, `ElementTypes.rule_eq_ok_iff` — asking for a kind that has to be there.
* `ElementTypes.tokenTypeOf?_eq_some_iff`, `ElementTypes.ruleIndexOf?_eq_some_iff` — kinds and symbols, both ways. -/

namespace TreeProjection.ElementTypes

variable {e : ElementTypes} {kind : Kind} {ty : TokenType} {r : RuleIndex}

/-- **The kinds fit**: all of them are smaller than the largest sixteen-bit number. -/
def Fits (e : ElementTypes) : Prop := e.size < 0xFFFF

/-- The kinds of token types come after the two special ones. -/
theorem toNat_tokensStart : tokensStart.toNat = 2 := rfl

/-- The number of kinds: two special ones, one for each token type and one for each rule. -/
theorem size_eq (e : ElementTypes) : e.size = 2 + e.tokenCount.toNat + e.ruleCount.toNat := rfl

/-- Kinds that fit are few enough. -/
theorem Fits.lt (h : e.Fits) : 2 + e.tokenCount.toNat + e.ruleCount.toNat < 0xFFFF := h

/-- The kinds of a layout fit, and there are as many of each sort as were asked for. -/
theorem fits_of_mk {tokens rules : Nat} (h : mk? tokens rules = .ok e) :
    e.Fits ∧ e.tokenCount.toNat = tokens ∧ e.ruleCount.toNat = rules := by
  simp only [mk?] at h
  split at h
  · rename_i htotal
    cases h
    simp only [Fits, size, UInt16.toNat_ofNat', toNat_tokensStart] at htotal ⊢
    omega
  · cases h

/-- The kinds of rules come after those of token types. -/
theorem toNat_rulesStart (h : e.Fits) : e.rulesStart.toNat = 2 + e.tokenCount.toNat := by
  have hfits := h.lt
  rw [rulesStart, UInt16.toNat_add, toNat_tokensStart]
  omega

/-- **The kind of a token type**, as a number. -/
theorem token?_eq_some_iff (h : e.Fits) : e.token? ty = some kind ↔
    ty.code.toNat < e.tokenCount.toNat ∧ kind.toNat = 2 + ty.code.toNat := by
  have hfits := h.lt
  have heof : ty.code.toNat < e.tokenCount.toNat → ty.isEof = false := by
    intro hlt
    rw [Bool.eq_false_iff]
    intro hty
    rw [TokenType.isEof_iff.mp hty] at hlt
    have hcode : TokenType.eof.code.toNat = 0xFFFF := rfl
    omega
  have hsum : ty.code.toNat < e.tokenCount.toNat → (tokensStart + ty.code).toNat = 2 + ty.code.toNat := by
    intro hlt
    rw [UInt16.toNat_add, toNat_tokensStart]
    omega
  simp only [token?, Bool.and_eq_true, Bool.not_eq_true', decide_eq_true_eq, UInt16.lt_iff_toNat_lt]
  constructor
  · intro hkind
    split at hkind
    · rename_i hlt
      cases hkind
      exact ⟨hlt.2, hsum hlt.2⟩
    · cases hkind
  · rintro ⟨hlt, hkind⟩
    rw [if_pos ⟨heof hlt, hlt⟩, Option.some.injEq, ← UInt16.toNat_inj, hsum hlt, hkind]

/-- A check with a kind after it, and the same kind under an equivalent test. -/
theorem checked_eq_ok_iff {p q : Prop} [Decidable p] [Decidable q] (hpq : p ↔ q) (v : Violation) (k : Kind) :
    ((if p then .ok () else .error v : Except Violation Unit) >>= fun _ => pure k) = .ok kind ↔
      (if q then some k else none) = some kind := by
  by_cases hp : p
  · rw [if_pos hp, if_pos (hpq.mp hp)]
    exact ⟨fun h => congrArg some (Except.ok.inj h), fun h => congrArg Except.ok (Option.some.inj h)⟩
  · rw [if_neg hp, if_neg (mt hpq.mpr hp)]
    exact ⟨nofun, nofun⟩

/-- **A token type is refused** exactly if it has no kind. -/
theorem token_eq_ok_iff : e.token ty = .ok kind ↔ e.token? ty = some kind := by
  unfold token ensureToken token?
  exact checked_eq_ok_iff (by simp only [UInt16.lt_iff_toNat_lt]) _ _

/-- **A rule is refused** exactly if it has no kind. -/
theorem rule_eq_ok_iff : e.rule r = .ok kind ↔ e.rule? r = some kind := by
  unfold rule ensureRule rule?
  exact checked_eq_ok_iff UInt16.lt_iff_toNat_lt.symm _ _

/-- The rules that have a kind. -/
theorem isSome_rule?_iff (e : ElementTypes) (r : RuleIndex) :
    (e.rule? r).isSome ↔ r.code.toNat < e.ruleCount.toNat := by
  simp [rule?, UInt16.lt_iff_toNat_lt]

/-- **The kind of a rule**, as a number. -/
theorem rule?_eq_some_iff (h : e.Fits) : e.rule? r = some kind ↔
    r.code.toNat < e.ruleCount.toNat ∧ kind.toNat = 2 + e.tokenCount.toNat + r.code.toNat := by
  have hrules := toNat_rulesStart h
  have hfits := h.lt
  have hsum : r.code.toNat < e.ruleCount.toNat →
      (e.rulesStart + r.code).toNat = 2 + e.tokenCount.toNat + r.code.toNat := by
    intro hlt
    rw [UInt16.toNat_add, hrules]
    omega
  simp only [rule?, UInt16.lt_iff_toNat_lt]
  constructor
  · intro hkind
    split at hkind
    · rename_i hlt
      cases hkind
      exact ⟨hlt, hsum hlt⟩
    · cases hkind
  · rintro ⟨hlt, hkind⟩
    rw [if_pos hlt, Option.some.injEq, ← UInt16.toNat_inj, hsum hlt, hkind]

/-- **In a layout of kinds no rule has the kind of error elements.** -/
theorem rule_ne_error {tokens rules : Nat} (h : mk? tokens rules = .ok e) (r : RuleIndex) : e.rule r ≠ .ok .error := by
  obtain ⟨hfits, -, -⟩ := fits_of_mk h
  intro herror
  have hrule := (rule?_eq_some_iff hfits).mp (rule_eq_ok_iff.mp herror)
  have hzero : Kind.error.toNat = 0 := rfl
  omega

/-- **What a kind stands for**: the error element, the element around a file, a token type or a rule, by the interval
that its number lies in. -/
theorem element?_cases (h : e.Fits) (kind : Kind) :
    (kind = .error ∧ e.element? kind = some .error) ∨
    (kind = .file ∧ e.element? kind = some .file) ∨
    (∃ ty : TokenType, e.element? kind = some (.token ty) ∧ ty.code.toNat < e.tokenCount.toNat ∧
      kind.toNat = 2 + ty.code.toNat) ∨
    (∃ r : RuleIndex, e.element? kind = some (.rule r) ∧ r.code.toNat < e.ruleCount.toNat ∧
      kind.toNat = 2 + e.tokenCount.toNat + r.code.toNat) ∨
    (e.element? kind = none ∧ e.size ≤ kind.toNat) := by
  have hrules := toNat_rulesStart h
  have hfits := h.lt
  have hstop : (e.rulesStart + e.ruleCount).toNat = 2 + e.tokenCount.toNat + e.ruleCount.toNat := by
    rw [UInt16.toNat_add, hrules]
    omega
  unfold element?
  by_cases herror : kind = .error
  · exact .inl ⟨herror, if_pos herror⟩
  by_cases hfile : kind = .file
  · exact .inr (.inl ⟨hfile, by rw [if_neg herror, if_pos hfile]⟩)
  -- The other two numbers are taken, so that the kind of a token type or rule is at least 2.
  have hkind : 2 ≤ kind.toNat := by
    have hzero : kind.toNat ≠ 0 := fun hzero => herror (UInt16.toNat_inj.mp hzero)
    have hone : kind.toNat ≠ 1 := fun hone => hfile (UInt16.toNat_inj.mp hone)
    omega
  rw [if_neg herror, if_neg hfile]
  -- below the first rule stand token types, below the first number not given out rules
  by_cases htoken : kind < e.rulesStart
  · refine .inr (.inr (.inl ⟨⟨kind - tokensStart⟩, by rw [if_pos htoken], ?_⟩))
    rw [UInt16.lt_iff_toNat_lt, hrules] at htoken
    rw [UInt16.toNat_sub_of_le _ _ (UInt16.le_iff_toNat_le.mpr (toNat_tokensStart ▸ hkind)), toNat_tokensStart]
    omega
  rw [if_neg htoken]
  rw [UInt16.lt_iff_toNat_lt, hrules] at htoken
  by_cases hrule : kind < e.rulesStart + e.ruleCount
  · refine .inr (.inr (.inr (.inl ⟨⟨kind - e.rulesStart⟩, by rw [if_pos hrule], ?_⟩)))
    rw [UInt16.lt_iff_toNat_lt, hstop] at hrule
    rw [UInt16.toNat_sub_of_le _ _ (UInt16.le_iff_toNat_le.mpr (by omega)), hrules]
    omega
  · rw [UInt16.lt_iff_toNat_lt, hstop] at hrule
    refine .inr (.inr (.inr (.inr ⟨by rw [if_neg (by rwa [UInt16.lt_iff_toNat_lt, hstop])], ?_⟩)))
    rw [size_eq]
    omega

/-- **From a kind to a token type and back.** -/
theorem tokenTypeOf?_eq_some_iff (h : e.Fits) : e.tokenTypeOf? kind = some ty ↔ e.token? ty = some kind := by
  have hfits := h.lt
  rw [token?_eq_some_iff h, tokenTypeOf?]
  rcases element?_cases h kind with ⟨rfl, hkind⟩ | ⟨rfl, hkind⟩ | ⟨ty', hkind, hlt, heq⟩ | ⟨r, hkind, hlt, heq⟩ |
    ⟨hkind, hle⟩
  -- Each interval leaves one equation between numbers.
  all_goals simp only [hkind, Option.some.injEq, reduceCtorEq, false_iff, not_and]
  · have hzero : Kind.error.toNat = 0 := rfl
    omega
  · have hone : Kind.file.toNat = 1 := rfl
    omega
  · constructor
    · rintro rfl
      exact ⟨hlt, heq⟩
    · rintro ⟨-, heq'⟩
      obtain ⟨code⟩ := ty
      obtain ⟨code'⟩ := ty'
      rw [TokenType.mk.injEq, ← UInt16.toNat_inj]
      simp only at heq heq'
      omega
  · omega
  · rw [size_eq] at hle
    omega

/-- **From a kind to a rule and back.** -/
theorem ruleIndexOf?_eq_some_iff (h : e.Fits) : e.ruleIndexOf? kind = some r ↔ e.rule? r = some kind := by
  have hfits := h.lt
  rw [rule?_eq_some_iff h, ruleIndexOf?]
  rcases element?_cases h kind with ⟨rfl, hkind⟩ | ⟨rfl, hkind⟩ | ⟨ty, hkind, hlt, heq⟩ | ⟨r', hkind, hlt, heq⟩ |
    ⟨hkind, hle⟩
  -- Each interval leaves one equation between numbers.
  all_goals simp only [hkind, Option.some.injEq, reduceCtorEq, false_iff, not_and]
  · have hzero : Kind.error.toNat = 0 := rfl
    omega
  · have hone : Kind.file.toNat = 1 := rfl
    omega
  · omega
  · constructor
    · rintro rfl
      exact ⟨hlt, heq⟩
    · rintro ⟨-, heq'⟩
      obtain ⟨code⟩ := r
      obtain ⟨code'⟩ := r'
      rw [RuleIndex.mk.injEq, ← UInt16.toNat_inj]
      simp only at heq heq'
      omega
  · rw [size_eq] at hle
    omega

end TreeProjection.ElementTypes
