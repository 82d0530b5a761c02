import TreeProjection.Failure

/-! # Sets of token types

What may come next in a parse is a set of token types.  A `TokenSet` holds the types below
`TokenSet.capacity` as bits of four machine words, the end of the input in a flag of its own, and beside
them the mark *end of rule*: "whatever may follow the rule that called this one".

* `TokenSet.insert`, `TokenSet.insert?` — put a type in; the second refuses a type with no place.
* `TokenSet.union`, `TokenSet.contains` — the two operations that recovery works with.
* `TokenSet.toList` — the members in order, the end of the input first. -/

namespace TreeProjection

/-- A set of token types, with the mark *end of rule*. -/
structure TokenSet where
  /-- Bit `n % 64` of word `n / 64` tells whether the type numbered `n` is a member. -/
  words : Vector UInt64 4
  /-- Whether the end of the input is a member. -/
  eof : Bool
  /-- Whether the set is marked *end of rule*. -/
  endOfRule : Bool
  deriving DecidableEq, Repr

namespace TokenSet

/-- Types numbered below this bound have a place in a set. -/
def capacity : Nat := 256

/-- The set without members and without the mark. -/
def empty : TokenSet := ⟨#v[0, 0, 0, 0], false, false⟩

instance : EmptyCollection TokenSet := ⟨empty⟩

instance : Inhabited TokenSet := ⟨empty⟩

/-- Whether a type has a place in a set: the end of the input and every type below the capacity. -/
def Fits (ty : TokenType) : Prop := ty = .eof ∨ ty.code.toNat < capacity

instance (ty : TokenType) : Decidable (Fits ty) := inferInstanceAs (Decidable (_ ∨ _))

/-- The word of the type numbered `n`. -/
def word (s : TokenSet) (n : Nat) : UInt64 := s.words[n / 64]?.getD 0

/-- The bit of the type numbered `n`, in the type's word. -/
def bit (n : Nat) : UInt64 := 1 <<< UInt64.ofNat (n % 64)

/-- Whether a type is a member. -/
def contains (s : TokenSet) (ty : TokenType) : Bool :=
  if ty.isEof then s.eof
  else ty.code.toNat < capacity && s.word ty.code.toNat &&& bit ty.code.toNat != 0

/-- Put a type in.  A type without a place is left out. -/
def insert (s : TokenSet) (ty : TokenType) : TokenSet :=
  let n := ty.code.toNat
  if ty.isEof then { s with eof := true }
  else { s with words := s.words.setIfInBounds (n / 64) (s.word n ||| bit n) }

/-- Put a type in, refusing one without a place. -/
def insert? (s : TokenSet) (ty : TokenType) : Except Violation TokenSet :=
  if Fits ty then .ok (s.insert ty) else .error .typeBeyondSet

/-- The set with the mark *end of rule*. -/
def withEndOfRule (s : TokenSet) : TokenSet := { s with endOfRule := true }

/-- The set without the mark *end of rule*. -/
def withoutEndOfRule (s : TokenSet) : TokenSet := { s with endOfRule := false }

/-- The mark *end of rule* alone: what follows an invocation that ends its caller. -/
def onlyEndOfRule : TokenSet := withEndOfRule ∅

/-- The set of the given types; types without a place are left out. -/
def ofList (types : List TokenType) : TokenSet := types.foldl insert ∅

/-- The set of the given types, refused if one of them has no place. -/
def ofList? (types : List TokenType) : Except Violation TokenSet := types.foldlM insert? ∅

/-- The set of one type. -/
def single (ty : TokenType) : TokenSet := insert ∅ ty

/-- The set of one type, refused if it has no place. -/
def single? (ty : TokenType) : Except Violation TokenSet := insert? ∅ ty

/-- Union of members and of marks, word by word. -/
def union (s t : TokenSet) : TokenSet :=
  ⟨s.words.zipWith (· ||| ·) t.words, s.eof || t.eof, s.endOfRule || t.endOfRule⟩

/-- Whether there is no member.  The mark is not a member. -/
def isEmpty (s : TokenSet) : Bool := !s.eof && s.words.all (· == 0)

/-- The types with a place, the end of the input first, then ascending.  The reserved type for text
without a token type is not listed. -/
def types : List TokenType :=
  .eof :: (List.range' 1 (capacity - 1)).map fun n => ⟨UInt16.ofNat n⟩

/-- The members in order: the end of the input first, then ascending. -/
def toList (s : TokenSet) : List TokenType := types.filter s.contains

/-- The first member in that order. -/
def first? (s : TokenSet) : Option TokenType := s.toList.head?

/-- The number of bits of a word that are set. -/
def ones (w : UInt64) : Nat := (List.range 64).countP w.toNat.testBit

/-- The number of members. -/
def size (s : TokenSet) : Nat := s.words.foldl (fun n w => n + ones w) s.eof.toNat

/-- The debug text of a set: its members in order, then the mark. -/
def debug (s : TokenSet) : String :=
  let shown := s.toList.map TokenType.debug ++ if s.endOfRule then ["<EOR>"] else []
  "\x7b" ++ ", ".intercalate shown ++ "\x7d"

/-! ## Words and bits -/

/-- The bit of a type is the only one that is set. -/
theorem testBit_bit (n i : Nat) : (bit n).toNat.testBit i = decide (n % 64 = i) := by
  have hlt : n % 64 < 64 := Nat.mod_lt _ (by decide)
  have hshift : (UInt64.ofNat (n % 64)).toNat % 64 = n % 64 := by
    rw [UInt64.toNat_ofNat_of_lt' (Nat.lt_trans hlt (by decide)), Nat.mod_eq_of_lt hlt]
  rw [bit, UInt64.toNat_shiftLeft, hshift, UInt64.toNat_one, Nat.shiftLeft_eq, Nat.one_mul,
    Nat.mod_eq_of_lt (Nat.pow_lt_pow_right (by decide) hlt), Nat.testBit_two_pow]

/-- Whether a word has the bit of a type. -/
theorem and_bit_ne_zero (w : UInt64) (n : Nat) : (w &&& bit n != 0) = w.toNat.testBit (n % 64) := by
  have hand : ∀ i, (w &&& bit n).toNat.testBit i = (w.toNat.testBit i && decide (n % 64 = i)) := fun i => by
    rw [UInt64.toNat_and, Nat.testBit_and, testBit_bit]
  cases hbit : w.toNat.testBit (n % 64) with
  | true =>
      rw [bne_iff_ne]
      intro hzero
      have hset := hand (n % 64)
      rw [hzero, hbit] at hset
      simp at hset
  | false =>
      have hzero : w &&& bit n = 0 := by
        refine UInt64.toNat_inj.mp (Nat.eq_of_testBit_eq fun i => ?_)
        rw [hand, UInt64.toNat_zero, Nat.zero_testBit]
        by_cases hi : n % 64 = i
        · rw [← hi, hbit, Bool.false_and]
        · rw [decide_eq_false hi, Bool.and_false]
      rw [hzero]
      rfl

/-- A word with the bit of a type set. -/
theorem testBit_or_bit (w : UInt64) (n i : Nat) :
    (w ||| bit n).toNat.testBit i = (w.toNat.testBit i || decide (n % 64 = i)) := by
  rw [UInt64.toNat_or, Nat.testBit_or, testBit_bit]

/-- Whether a type other than the end of the input is a member: its word has its bit. -/
theorem contains_of_ne_eof {t : TokenType} (s : TokenSet) (ht : t.isEof = false) :
    s.contains t =
      (decide (t.code.toNat < capacity) && (s.word t.code.toNat).toNat.testBit (t.code.toNat % 64)) := by
  rw [contains, ht, if_neg Bool.false_ne_true, and_bit_ne_zero]

/-- The bits of a set with the bit of a type set. -/
theorem testBit_word_set (s : TokenSet) {n : Nat} (hn : n < capacity) (m : Nat) :
    (word { s with words := s.words.setIfInBounds (n / 64) (s.word n ||| bit n) } m).toNat.testBit (m % 64) =
      ((s.word m).toNat.testBit (m % 64) || decide (m = n)) := by
  have hbound : n / 64 < 4 := Nat.div_lt_of_lt_mul hn
  simp only [word, Vector.getElem?_setIfInBounds]
  by_cases hword : n / 64 = m / 64
  · -- within a word the remainder tells the types apart
    have hsame : n % 64 = m % 64 ↔ m = n := by omega
    rw [if_pos hword, if_pos hbound, Option.getD_some, testBit_or_bit, hword, decide_eq_decide.mpr hsame]
  · have hne : m ≠ n := fun h => hword (by rw [h])
    rw [if_neg hword, decide_eq_false hne, Bool.or_false]

/-- The words of a union. -/
theorem word_union (s t : TokenSet) (n : Nat) : (s.union t).word n = s.word n ||| t.word n := by
  simp only [word, union, Vector.getElem?_zipWith]
  by_cases hn : n / 64 < 4 <;> simp [hn]

@[simp] theorem contains_empty (ty : TokenType) : contains ∅ ty = false := by
  have hword : ∀ n, word ∅ n = 0 := fun n => by
    rcases h : n / 64 with _ | _ | _ | _ | k <;> simp [word, h, EmptyCollection.emptyCollection, empty]
  cases hty : ty.isEof with
  | true =>
      rw [contains, hty]
      rfl
  | false => simp [contains_of_ne_eof _ hty, hword]

@[simp] theorem contains_union (s t : TokenSet) (ty : TokenType) :
    (s.union t).contains ty = (s.contains ty || t.contains ty) := by
  cases hty : ty.isEof with
  | true => simp [contains, union, hty]
  | false =>
      simp only [contains_of_ne_eof _ hty, word_union, UInt64.toNat_or, Nat.testBit_or, Bool.and_or_distrib_left]

@[simp] theorem contains_withEndOfRule (s : TokenSet) (ty : TokenType) :
    s.withEndOfRule.contains ty = s.contains ty := rfl

@[simp] theorem contains_withoutEndOfRule (s : TokenSet) (ty : TokenType) :
    s.withoutEndOfRule.contains ty = s.contains ty := rfl

/-! ## Members -/

/-- Two types of one number are the same. -/
theorem eq_of_code {t u : TokenType} (h : t.code.toNat = u.code.toNat) : t = u := by
  cases t
  cases u
  exact congrArg TokenType.mk (UInt16.toNat_inj.mp h)

/-- A type that is put in becomes a member. -/
theorem contains_insert {ty : TokenType} (h : Fits ty) (s : TokenSet) (t : TokenType) :
    (s.insert ty).contains t = (s.contains t || t == ty) := by
  cases hty : ty.isEof with
  | true =>
      have heof : ty = .eof := TokenType.isEof_iff.mp hty
      cases ht : t.isEof with
      | true =>
          rw [heof, TokenType.isEof_iff.mp ht]
          simp [contains, insert, TokenType.isEof]
      | false =>
          have hne : (t == ty) = false := by
            rw [heof]
            exact ht
          rw [hne, Bool.or_false, contains_of_ne_eof _ ht, contains_of_ne_eof _ ht, insert, if_pos hty]
          rfl
  | false =>
      have hn : ty.code.toNat < capacity :=
        h.resolve_left fun heof => Bool.false_ne_true (hty.symm.trans (TokenType.isEof_iff.mpr heof))
      cases ht : t.isEof with
      | true =>
          have hne : (t == ty) = false := by
            refine beq_eq_false_iff_ne.mpr fun heq => ?_
            rw [heq, hty] at ht
            cases ht
          rw [hne, Bool.or_false, contains, contains, insert, hty, ht]
          rfl
      | false =>
          have hbeq : (t == ty) = decide (t.code.toNat = ty.code.toNat) :=
            decide_eq_decide.mpr ⟨congrArg fun t : TokenType => t.code.toNat, eq_of_code⟩
          rw [contains_of_ne_eof _ ht, contains_of_ne_eof _ ht, insert, hty, if_neg Bool.false_ne_true,
            testBit_word_set s hn, hbeq]
          by_cases hcode : t.code.toNat = ty.code.toNat
          · simp [hcode, hn]
          · simp [hcode]

/-- A type without a place is left out. -/
theorem insert_of_not_fits {ty : TokenType} (h : ¬ Fits ty) (s : TokenSet) : s.insert ty = s := by
  obtain ⟨heof, hlarge⟩ := not_or.mp h
  have hbound : 4 ≤ ty.code.toNat / 64 := by
    rw [capacity] at hlarge
    omega
  rw [insert, if_neg (mt TokenType.isEof_iff.mp heof), Vector.setIfInBounds_eq_of_size_le hbound]

/-- All members have a place. -/
theorem fits_of_contains {s : TokenSet} {t : TokenType} (h : s.contains t = true) : Fits t := by
  cases ht : t.isEof with
  | true => exact .inl (TokenType.isEof_iff.mp ht)
  | false =>
      rw [contains_of_ne_eof s ht, Bool.and_eq_true, decide_eq_true_eq] at h
      exact .inr h.1

/-- A type with a place, by its number. -/
theorem contains_ofNat (s : TokenSet) {n : Nat} (hn : n < capacity) :
    s.contains ⟨UInt16.ofNat n⟩ = (s.word n).toNat.testBit (n % 64) := by
  have hsize : n < UInt16.size := Nat.lt_trans hn (by decide)
  have hcode : (UInt16.ofNat n).toNat = n := UInt16.toNat_ofNat_of_lt hsize
  have hne : TokenType.isEof ⟨UInt16.ofNat n⟩ = false := by
    refine Bool.eq_false_iff.mpr fun heof => ?_
    have hmax := congrArg (fun t : TokenType => t.code.toNat) (TokenType.isEof_iff.mp heof)
    exact absurd (hcode.symm.trans hmax) (Nat.ne_of_lt (Nat.lt_trans hn (by decide)))
  rw [contains_of_ne_eof s hne, hcode, decide_eq_true hn, Bool.true_and]

/-- **Two sets with the same members and the same mark** are the same. -/
theorem ext_of_contains {s t : TokenSet} (hmembers : ∀ ty, s.contains ty = t.contains ty)
    (hmark : s.endOfRule = t.endOfRule) : s = t := by
  have hword : ∀ i, i < 4 → s.word (64 * i) = t.word (64 * i) := by
    intro i hi
    refine UInt64.toNat_inj.mp (Nat.eq_of_testBit_eq fun j => ?_)
    by_cases hj : j < 64
    · -- the bit is that of the type numbered `64 * i + j`
      have hn : 64 * i + j < capacity := by
        rw [capacity]
        omega
      have hdiv : (64 * i + j) / 64 = 64 * i / 64 := by omega
      have hmod : (64 * i + j) % 64 = j := by omega
      have hbit := hmembers ⟨UInt16.ofNat (64 * i + j)⟩
      rw [contains_ofNat s hn, contains_ofNat t hn, word, word, hdiv, hmod] at hbit
      exact hbit
    · have hbeyond : ∀ w : UInt64, w.toNat.testBit j = false := fun w =>
        Nat.testBit_lt_two_pow (Nat.lt_of_lt_of_le w.toNat_lt (Nat.pow_le_pow_right (by decide) (Nat.le_of_not_lt hj)))
      rw [hbeyond, hbeyond]
  have hwords : s.words = t.words := by
    refine Vector.ext fun i hi => ?_
    have hsame := hword i hi
    rw [word, word, Nat.mul_div_cancel_left i (by decide)] at hsame
    simpa [hi] using hsame
  have heof : s.eof = t.eof := hmembers .eof
  cases s
  cases t
  simp_all

/-- Types that are put in become members. -/
theorem contains_foldl_insert {types : List TokenType} (h : ∀ ty ∈ types, Fits ty) (s : TokenSet)
    (t : TokenType) :
    (types.foldl insert s).contains t = true ↔ s.contains t = true ∨ t ∈ types := by
  induction types generalizing s with
  | nil => simp
  | cons ty rest ih =>
      rw [List.foldl_cons, ih (fun ty hty => h ty (List.mem_cons_of_mem _ hty)),
        contains_insert (h ty List.mem_cons_self)]
      simp [or_assoc]

/-- The members of a set are the types that it is made of. -/
theorem contains_ofList {types : List TokenType} (h : ∀ ty ∈ types, Fits ty) (t : TokenType) :
    (ofList types).contains t = true ↔ t ∈ types := by
  simp [ofList, contains_foldl_insert h]

/-- The member of a set of one type. -/
theorem contains_single {ty : TokenType} (h : Fits ty) (t : TokenType) :
    (single ty).contains t = (t == ty) := by
  rw [single, contains_insert h, contains_empty, Bool.false_or]

end TokenSet

end TreeProjection
