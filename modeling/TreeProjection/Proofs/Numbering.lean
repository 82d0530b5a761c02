import TreeProjection.Proofs.Kinds

/-! # Elements are numbered without gaps

The kind of an element is its number.  The two special elements come first, then the token types, then the rules, and each
sort goes on where the one before it ends.  So no two elements share a kind, every kind below the size belongs to an
element, and `ElementTypes.element?` finds that element.  Kinds are sums of sixteen-bit numbers, and since all kinds of a
layout fit, none of these sums wraps around.

* `ElementTypes.encode` — the kind of any element; `ElementTypes.encode_eq_ok_iff`: `ElementTypes.element?` is the way back.
* `ElementTypes.Numbers` — a sort of symbols with kinds of its own.
* `ElementTypes.Exact`, `ElementTypes.SumsExact` — sums that do not wrap around.
* `ElementTypes.kinds_biject` — elements and kinds correspond, in every layout. -/

namespace TreeProjection.ElementTypes

variable {e : ElementTypes} {kind : Kind} {ty : TokenType} {r : RuleIndex} {x : ElementType}

/-- **The kind of an element.**  The two special ones have theirs in every layout, a symbol only if the layout has it. -/
def encode (e : ElementTypes) : ElementType → Except Violation Kind
  | .error => .ok .error
  | .file => .ok .file
  | .token ty => e.token ty
  | .rule r => e.rule r

/-- **A sort of symbols has kinds of its own**: `kind` gives them and refuses symbols without one, `kind?` leaves those out,
and `element` makes an element of a symbol. -/
structure Numbers {σ : Type} (e : ElementTypes) (kind : σ → Except Violation Kind) (kind? : σ → Option Kind)
    (element : σ → ElementType) : Prop where
  /-- The kinds come after the two special ones. -/
  two_le : ∀ s k, kind s = .ok k → 2 ≤ k.toNat
  /-- They are among those that the size counts. -/
  lt_size : ∀ s k, kind s = .ok k → k.toNat < e.size
  /-- Two symbols do not share a kind. -/
  injective : ∀ s t k, kind s = .ok k → kind t = .ok k → s = t
  /-- The kind leads back to the symbol. -/
  inverted : ∀ s k, kind s = .ok k → e.element? k = some (element s)
  /-- A kind is left out exactly where it is refused, and otherwise it is the same. -/
  checked : ∀ s k, kind? s = some k ↔ kind s = .ok k

/-! ## Sums -/

/-- **A sum does not wrap around.** -/
def Exact (a b : UInt16) : Prop := (a + b).toNat = a.toNat + b.toNat

/-- A sum that is small enough does not wrap around. -/
theorem exact_of_lt {a b : UInt16} (h : a.toNat + b.toNat < 0x10000) : Exact a b := by
  rw [Exact, UInt16.toNat_add]
  exact Nat.mod_eq_of_lt h

/-- A kind that is a sum as a number is the sum, which does not wrap around. -/
theorem eq_add_of_toNat {a b : UInt16} (h : kind.toNat = a.toNat + b.toNat) : kind = a + b ∧ Exact a b := by
  have hexact : Exact a b := exact_of_lt (h ▸ kind.toNat_lt)
  exact ⟨UInt16.toNat_inj.mp (h.trans hexact.symm), hexact⟩

/-- **No sum wraps around** in computing a kind or in finding what a kind stands for. -/
structure SumsExact (e : ElementTypes) : Prop where
  /-- The first kind of a rule. -/
  rulesStart : Exact tokensStart e.tokenCount
  /-- The end of the kinds. -/
  stop : Exact e.rulesStart e.ruleCount
  /-- The kind of a token type. -/
  token : ∀ ty kind, e.token ty = .ok kind → kind = tokensStart + ty.code ∧ Exact tokensStart ty.code
  /-- The kind of a rule. -/
  rule : ∀ r kind, e.rule r = .ok kind → kind = e.rulesStart + r.code ∧ Exact e.rulesStart r.code

/-- **In a layout whose kinds fit no sum wraps around.** -/
theorem Fits.sumsExact (h : e.Fits) : e.SumsExact := by
  have hfits := h.lt
  have hrules := toNat_rulesStart h
  refine ⟨exact_of_lt ?_, exact_of_lt ?_, fun ty kind hkind => eq_add_of_toNat ?_,
    fun r kind hkind => eq_add_of_toNat ?_⟩
  · rw [toNat_tokensStart]
    omega
  · rw [hrules]
    omega
  · rw [toNat_tokensStart]
    exact ((token?_eq_some_iff h).mp (token_eq_ok_iff.mp hkind)).2
  · rw [hrules]
    exact ((rule?_eq_some_iff h).mp (rule_eq_ok_iff.mp hkind)).2

/-! ## Symbols that have kinds -/

/-- **A token type has a kind** if it is one of the layout. -/
theorem exists_token_iff (h : e.Fits) : (∃ kind, e.token ty = .ok kind) ↔ ty.code.toNat < e.tokenCount.toNat := by
  have hfits := h.lt
  simp only [token_eq_ok_iff, token?_eq_some_iff h]
  refine ⟨fun ⟨_, hlt, _⟩ => hlt, fun hlt => ?_⟩
  have hsmall : 2 + ty.code.toNat < 0xFFFF := by omega
  exact ⟨.ofNat _, hlt, UInt16.toNat_ofNat_of_lt (Nat.lt_trans hsmall (by decide))⟩

/-- **A rule has a kind** if it is one of the layout. -/
theorem exists_rule_iff (h : e.Fits) : (∃ kind, e.rule r = .ok kind) ↔ r.toNat < e.ruleCount.toNat := by
  have hfits := h.lt
  simp only [rule_eq_ok_iff, rule?_eq_some_iff h]
  refine ⟨fun ⟨_, hlt, _⟩ => hlt, fun hlt => ?_⟩
  have hsmall : 2 + e.tokenCount.toNat + r.code.toNat < 0xFFFF := by
    rw [RuleIndex.toNat] at hlt
    omega
  exact ⟨.ofNat _, hlt, UInt16.toNat_ofNat_of_lt (Nat.lt_trans hsmall (by decide))⟩

/-! ## From elements to kinds and back -/

/-- A kind stands for a token type if it leads back to that type. -/
theorem element?_eq_token_iff : e.element? kind = some (.token ty) ↔ e.tokenTypeOf? kind = some ty := by
  rw [tokenTypeOf?]
  cases e.element? kind with
  | none => simp
  | some x => cases x <;> simp

/-- A kind stands for a rule if it leads back to that rule. -/
theorem element?_eq_rule_iff : e.element? kind = some (.rule r) ↔ e.ruleIndexOf? kind = some r := by
  rw [ruleIndexOf?]
  cases e.element? kind with
  | none => simp
  | some x => cases x <;> simp

/-- **What stands for what.**  An element has a kind if and only if the kind stands for the element. -/
theorem encode_eq_ok_iff (h : e.Fits) : e.encode x = .ok kind ↔ e.element? kind = some x := by
  cases x with
  | error =>
      -- of what a kind may stand for, only one is the error element
      refine ⟨fun hkind => Except.ok.inj hkind ▸ rfl, fun hx => ?_⟩
      rcases element?_cases h kind with ⟨rfl, -⟩ | ⟨-, hkind⟩ | ⟨_, hkind, -⟩ | ⟨_, hkind, -⟩ | ⟨hkind, -⟩
      · rfl
      all_goals
        rw [hkind] at hx
        cases hx
  | file =>
      refine ⟨fun hkind => Except.ok.inj hkind ▸ rfl, fun hx => ?_⟩
      rcases element?_cases h kind with ⟨-, hkind⟩ | ⟨rfl, -⟩ | ⟨_, hkind, -⟩ | ⟨_, hkind, -⟩ | ⟨hkind, -⟩
      case inr.inl => rfl
      all_goals
        rw [hkind] at hx
        cases hx
  | token ty => exact token_eq_ok_iff.trans ((tokenTypeOf?_eq_some_iff h).symm.trans element?_eq_token_iff.symm)
  | rule r => exact rule_eq_ok_iff.trans ((ruleIndexOf?_eq_some_iff h).symm.trans element?_eq_rule_iff.symm)

/-- **A kind stands for nothing** if and only if it is not below the size. -/
theorem element?_eq_none_iff (h : e.Fits) : e.element? kind = none ↔ e.size ≤ kind.toNat := by
  have hsize := size_eq e
  rcases element?_cases h kind with ⟨rfl, hkind⟩ | ⟨rfl, hkind⟩ | ⟨ty, hkind, hlt, heq⟩ | ⟨r, hkind, hlt, heq⟩ |
    ⟨hkind, hle⟩
  case inr.inr.inr.inr => exact iff_of_true hkind hle
  all_goals
    rw [hkind]
    refine iff_of_false nofun (Nat.not_le.mpr ?_)
  · have hzero : Kind.error.toNat = 0 := rfl
    omega
  · have hone : Kind.file.toNat = 1 := rfl
    omega
  · omega
  · omega

/-- **The kinds of elements are below the size.** -/
theorem lt_size_of_encode (h : e.Fits) (hx : e.encode x = .ok kind) : kind.toNat < e.size := by
  refine Nat.not_le.mp fun hle => ?_
  have hnone := (element?_eq_none_iff h).mpr hle
  rw [(encode_eq_ok_iff h).mp hx] at hnone
  cases hnone

/-- The kinds of all elements but the two special ones come after those two. -/
theorem two_le_of_encode (h : e.Fits) (hx : e.encode x = .ok kind) (herror : x ≠ .error) (hfile : x ≠ .file) :
    2 ≤ kind.toNat := by
  have hback := (encode_eq_ok_iff h).mp hx
  rcases element?_cases h kind with ⟨-, hkind⟩ | ⟨-, hkind⟩ | ⟨ty, -, -, heq⟩ | ⟨r, -, -, heq⟩ | ⟨hkind, -⟩
  · exact absurd (Option.some.inj (hback.symm.trans hkind)) herror
  · exact absurd (Option.some.inj (hback.symm.trans hkind)) hfile
  · omega
  · omega
  · exact absurd (hback.symm.trans hkind) nofun

/-- **Symbols have kinds of their own** if they are elements of their own, other than the two special ones. -/
theorem Fits.numbers (h : e.Fits) {σ : Type} {f : σ → Except Violation Kind} {f? : σ → Option Kind}
    {element : σ → ElementType} (hencode : ∀ s, e.encode (element s) = f s)
    (hinj : ∀ s t, element s = element t → s = t) (hspecial : ∀ s, element s ≠ .error ∧ element s ≠ .file)
    (hchecked : ∀ s k, f? s = some k ↔ f s = .ok k) : e.Numbers f f? element where
  two_le s _ hs := two_le_of_encode h ((hencode s).trans hs) (hspecial s).1 (hspecial s).2
  lt_size s _ hs := lt_size_of_encode h ((hencode s).trans hs)
  injective s t _ hs ht := by
    have hs' := (encode_eq_ok_iff h).mp ((hencode s).trans hs)
    have ht' := (encode_eq_ok_iff h).mp ((hencode t).trans ht)
    exact hinj s t (Option.some.inj (hs'.symm.trans ht'))
  inverted s _ hs := (encode_eq_ok_iff h).mp ((hencode s).trans hs)
  checked := hchecked

/-! ## Elements and kinds -/

/-- **Elements and kinds correspond**, one to one and without a gap.  In every layout, the token types and the rules below
the two counts are those that have kinds; either sort has kinds of its own, after the two special ones and below the size,
and the two sorts share none.  Each kind below the size stands for an element, which is the only one that has the kind; the
other kinds stand for nothing.  No sum wraps around in computing any of it. -/
theorem kinds_biject {tokens rules : Nat} (h : mk? tokens rules = .ok e) :
    e.size = 2 + tokens + rules ∧
    (∀ ty, (∃ kind, e.token ty = .ok kind) ↔ ty.code.toNat < tokens) ∧
    (∀ r, (∃ kind, e.rule r = .ok kind) ↔ r.toNat < rules) ∧
    e.Numbers e.token e.token? .token ∧ e.Numbers e.rule e.rule? .rule ∧
    (∀ ty r kind, e.token ty = .ok kind → e.rule r ≠ .ok kind) ∧
    (∀ kind, kind.toNat < e.size → ∃ x, e.element? kind = some x ∧ ∀ y, e.encode y = .ok kind ↔ y = x) ∧
    (∀ kind, e.size ≤ kind.toNat → e.element? kind = none) ∧
    e.SumsExact := by
  obtain ⟨hfits, htokens, hrules⟩ := fits_of_mk h
  have htoken : e.Numbers e.token e.token? .token :=
    hfits.numbers (fun _ => rfl) (fun _ _ => ElementType.token.inj) (fun _ => ⟨nofun, nofun⟩)
      fun _ _ => token_eq_ok_iff.symm
  have hrule : e.Numbers e.rule e.rule? .rule :=
    hfits.numbers (fun _ => rfl) (fun _ _ => ElementType.rule.inj) (fun _ => ⟨nofun, nofun⟩)
      fun _ _ => rule_eq_ok_iff.symm
  refine ⟨by rw [size_eq, htokens, hrules], fun ty => htokens ▸ exists_token_iff hfits,
    fun r => hrules ▸ exists_rule_iff hfits, htoken, hrule, fun ty r kind hty hr => ?_, fun kind hlt => ?_,
    fun kind hle => (element?_eq_none_iff hfits).mpr hle, hfits.sumsExact⟩
  · -- a shared kind would stand for a token type and for a rule
    have hback := (htoken.inverted ty kind hty).symm.trans (hrule.inverted r kind hr)
    cases hback
  · obtain ⟨x, hx⟩ := Option.ne_none_iff_exists'.mp
      (mt (element?_eq_none_iff hfits).mp (Nat.not_le.mpr hlt))
    refine ⟨x, hx, fun y => (encode_eq_ok_iff hfits).trans ?_⟩
    rw [hx, Option.some.injEq]
    exact eq_comm

/-- In the fullest layout the last rule has the last kind, and the kind after it stands for nothing. -/
theorem kinds_biject_full : ∃ e, mk? 65000 532 = .ok e ∧ mk? 65000 533 = .error (.tooManySymbols 65535) ∧
    e.size = 65534 ∧ e.token .eof = .error (.noElement .eof 65000) ∧ e.rule? ⟨531⟩ = some 65533 ∧
    e.rule ⟨531⟩ = .ok 65533 ∧ e.element? 65533 = some (.rule ⟨531⟩) ∧ e.element? 65534 = none ∧ e.SumsExact := by
  have hmk : mk? 65000 532 = .ok ⟨65000, 532⟩ := by cbv
  have hlast : rule ⟨65000, 532⟩ ⟨531⟩ = .ok 65533 := by cbv
  obtain ⟨hsize, -, -, -, hrule, -, -, hbeyond, hsums⟩ := kinds_biject hmk
  exact ⟨_, hmk, by cbv, hsize, by cbv, (hrule.checked _ _).mpr hlast, hlast,
    hrule.inverted _ _ hlast, hbeyond 65534 (Nat.le_of_eq hsize), hsums⟩

end TreeProjection.ElementTypes
