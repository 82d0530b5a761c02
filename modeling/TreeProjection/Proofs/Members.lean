import Mathlib.Data.Set.Card
import TreeProjection.TokenSet

/-! # Sets of token types as finite sets

A set of token types is put together step by step: from a list of types or from a single one, by putting types in, by
union, and by setting the mark *end of rule* or taking it off.  Its members are bits of four words and a flag, but of that
nothing shows: as long as only types with a place are put in, no step is refused, a set has just the members that have been
put in, and it is known by them and by its mark.

* `TokenSet.members` — the members of a set, as a set of types.
* `TokenSet.places`, `TokenSet.size_eq_countP` — all types with a place, and what the bits count.
* `TokenSet.Recipe` — how a set is put together.
* `TokenSet.Recipe.builds_finite_set` — what comes of it is a finite set of types with a mark. -/

namespace TreeProjection.TokenSet

variable {s t : TokenSet} {ty : TokenType}

/-- The members of a set. -/
def members (s : TokenSet) : Set TokenType := {ty | s.contains ty = true}

/-! ## Counting bits -/

/-- All types with a place: the end of the input first, then ascending. -/
def places : List TokenType := .eof :: (List.range capacity).map fun n => ⟨UInt16.ofNat n⟩

/-- The number of a type below the capacity is kept. -/
theorem toNat_ofNat {n : Nat} (hn : n < capacity) : (UInt16.ofNat n).toNat = n :=
  UInt16.toNat_ofNat_of_lt (Nat.lt_trans hn (by decide))

/-- **The places are those of the types that fit.** -/
theorem mem_places_iff : ty ∈ places ↔ Fits ty := by
  rw [places, List.mem_cons, List.mem_map]
  refine or_congr_right ⟨?_, fun hlt => ⟨ty.code.toNat, List.mem_range.mpr hlt, eq_of_code (toNat_ofNat hlt)⟩⟩
  rintro ⟨n, hn, rfl⟩
  have hlt := List.mem_range.mp hn
  exact (toNat_ofNat hlt).symm ▸ hlt

/-- No type has two places. -/
theorem nodup_places : places.Nodup := by
  refine List.nodup_cons.mpr ⟨fun heof => ?_, List.Nodup.map_on (fun m hm n hn hmn => ?_) List.nodup_range⟩
  · obtain ⟨n, hn, hcode⟩ := List.mem_map.mp heof
    have hlt := List.mem_range.mp hn
    have hmax := congrArg (fun ty : TokenType => ty.code.toNat) hcode
    rw [toNat_ofNat hlt] at hmax
    exact absurd (hmax ▸ hlt) (by decide)
  · have hcode := congrArg (fun ty : TokenType => ty.code.toNat) hmn
    rwa [toNat_ofNat (List.mem_range.mp hm), toNat_ofNat (List.mem_range.mp hn)] at hcode

/-- **The bits of several words** are counted word by word. -/
theorem foldl_ones (ws : List UInt64) (k : Nat) : ws.foldl (fun n w => n + ones w) k =
    k + (List.range (64 * ws.length)).countP fun n => (ws[n / 64]?.getD 0).toNat.testBit (n % 64) := by
  induction ws using List.reverseRecOn with
  | nil => rfl
  | append_singleton ws w ih =>
      have hlength : 64 * (ws ++ [w]).length = 64 * ws.length + 64 := by
        rw [List.length_append, List.length_singleton, Nat.mul_add]
      -- the bits of the words before are those of `ws`
      have hbefore : ∀ n ∈ List.range (64 * ws.length),
          (((ws ++ [w])[n / 64]?.getD 0).toNat.testBit (n % 64) = true ↔
            (ws[n / 64]?.getD 0).toNat.testBit (n % 64) = true) := fun n hn => by
        have hword : n / 64 < ws.length := Nat.div_lt_of_lt_mul (List.mem_range.mp hn)
        rw [List.getElem?_append_left hword]
      -- and the others are those of `w`
      have hlast : ∀ n ∈ List.range 64,
          (((fun n => ((ws ++ [w])[n / 64]?.getD 0).toNat.testBit (n % 64)) ∘ (64 * ws.length + ·)) n = true ↔
            w.toNat.testBit n = true) := fun n hn => by
        have hn := List.mem_range.mp hn
        have hdiv : (64 * ws.length + n) / 64 = ws.length := by omega
        have hmod : (64 * ws.length + n) % 64 = n := by omega
        simp only [Function.comp_apply, hdiv, hmod]
        simp
      rw [List.foldl_append, List.foldl_cons, List.foldl_nil, ih, hlength, List.range_add, List.countP_append,
        List.countP_map, List.countP_congr hbefore, List.countP_congr hlast, Nat.add_assoc]
      rfl

/-- **The size is the number of places that are taken.** -/
theorem size_eq_countP (s : TokenSet) : s.size = places.countP s.contains := by
  have hwords : s.size = s.eof.toNat +
      (List.range capacity).countP fun n => (s.word n).toNat.testBit (n % 64) := by
    rw [size, ← Vector.foldl_toList, foldl_ones]
    simp [word, capacity]
  have hbits : ∀ n ∈ List.range capacity, ((s.word n).toNat.testBit (n % 64) = true ↔
      (s.contains ∘ fun n => ⟨UInt16.ofNat n⟩) n = true) := fun n hn => by
    rw [Function.comp_apply, contains_ofNat s (List.mem_range.mp hn)]
  have heof : s.contains .eof = s.eof := rfl
  rw [hwords, places, List.countP_cons, List.countP_map, List.countP_congr hbits, heof, Nat.add_comm]
  cases s.eof <;> rfl

/-- The members are the places that are taken. -/
theorem members_eq (s : TokenSet) : s.members = ↑(places.filter s.contains).toFinset := by
  ext ty
  rw [List.coe_toFinset, members, Set.mem_ofPred_eq, Set.mem_ofPred_eq, List.mem_filter, mem_places_iff]
  exact ⟨fun h => ⟨fits_of_contains h, h⟩, And.right⟩

/-- **The size is the number of members.** -/
theorem size_eq_ncard (s : TokenSet) : s.size = s.members.ncard := by
  rw [members_eq, Set.ncard_coe_finset, List.toFinset_card_of_nodup (nodup_places.filter _), size_eq_countP,
    List.countP_eq_length_filter]

/-- The members of a union. -/
theorem members_union (s t : TokenSet) : (s.union t).members = s.members ∪ t.members := by
  ext ty
  rw [Set.mem_union, members, members, members, Set.mem_ofPred_eq, Set.mem_ofPred_eq, Set.mem_ofPred_eq, contains_union,
    Bool.or_eq_true]

/-- **A set is known by its members and its mark.** -/
theorem eq_iff_members : s = t ↔ s.members = t.members ∧ s.endOfRule = t.endOfRule := by
  refine ⟨?_, fun ⟨hmembers, hmark⟩ => ext_of_contains (fun ty => ?_) hmark⟩
  · rintro rfl
    exact ⟨rfl, rfl⟩
  · exact Bool.eq_iff_iff.mpr (Set.ext_iff.mp hmembers ty)

/-! ## Putting sets together -/

/-- A type with a place is not refused. -/
theorem insert?_of_fits (h : Fits ty) (s : TokenSet) : s.insert? ty = .ok (s.insert ty) := if_pos h

/-- Types with a place are not refused, one after the other. -/
theorem foldlM_insert?_of_fits {types : List TokenType} (h : ∀ ty ∈ types, Fits ty) (s : TokenSet) :
    types.foldlM insert? s = .ok (types.foldl insert s) := by
  induction types generalizing s with
  | nil => rfl
  | cons ty rest ih =>
      obtain ⟨hty, hrest⟩ := List.forall_mem_cons.mp h
      rw [List.foldlM_cons, insert?_of_fits hty, List.foldl_cons]
      exact ih hrest (s.insert ty)

/-- Putting a type in does not change the mark. -/
theorem endOfRule_insert (s : TokenSet) (ty : TokenType) : (s.insert ty).endOfRule = s.endOfRule := by
  rw [insert]
  split <;> rfl

/-- Putting types in does not change the mark. -/
theorem endOfRule_foldl_insert (types : List TokenType) (s : TokenSet) :
    (types.foldl insert s).endOfRule = s.endOfRule := by
  induction types generalizing s with
  | nil => rfl
  | cons ty rest ih => rw [List.foldl_cons, ih, endOfRule_insert]

/-- **How a set is put together**, step by step. -/
inductive Recipe where
  /-- From a list of types. -/
  | ofList (types : List TokenType)
  /-- From a single type. -/
  | single (ty : TokenType)
  /-- A type is put in. -/
  | insert (r : Recipe) (ty : TokenType)
  /-- Two sets are put together. -/
  | union (r r' : Recipe)
  /-- The mark is set. -/
  | withEndOfRule (r : Recipe)
  /-- The mark is taken off. -/
  | withoutEndOfRule (r : Recipe)
  deriving DecidableEq, Repr

namespace Recipe

/-- The set that is put together, unless a step is refused. -/
def build : Recipe → Except Violation TokenSet
  | ofList types => TokenSet.ofList? types
  | single ty => TokenSet.single? ty
  | insert r ty => do (← r.build).insert? ty
  | union r r' => do return (← r.build).union (← r'.build)
  | withEndOfRule r => do return (← r.build).withEndOfRule
  | withoutEndOfRule r => do return (← r.build).withoutEndOfRule

/-- The types that are put in by some step. -/
def put : Recipe → List TokenType
  | ofList types => types
  | single ty => [ty]
  | insert r ty => r.put ++ [ty]
  | union r r' => r.put ++ r'.put
  | withEndOfRule r => r.put
  | withoutEndOfRule r => r.put

/-- Whether the mark is set in the end. -/
def marked : Recipe → Bool
  | ofList _ => false
  | single _ => false
  | insert r _ => r.marked
  | union r r' => r.marked || r'.marked
  | withEndOfRule _ => true
  | withoutEndOfRule _ => false

/-- Whether all types that are put in have a place. -/
def Fits (r : Recipe) : Prop := ∀ ty ∈ r.put, TokenSet.Fits ty

instance (r : Recipe) : Decidable r.Fits := inferInstanceAs (Decidable (∀ ty ∈ r.put, TokenSet.Fits ty))

/-- **No step is refused**, the members are the types that have been put in, and the mark is as the steps leave it. -/
theorem exists_build {r : Recipe} (h : r.Fits) : ∃ s, r.build = .ok s ∧
    (∀ ty, s.contains ty = true ↔ ty ∈ r.put) ∧ s.endOfRule = r.marked := by
  induction r with
  | ofList types =>
      exact ⟨.ofList types, foldlM_insert?_of_fits h ∅, contains_ofList h, endOfRule_foldl_insert types ∅⟩
  | single ty =>
      have hty : TokenSet.Fits ty := h ty List.mem_cons_self
      refine ⟨.single ty, insert?_of_fits hty ∅, fun t => ?_, endOfRule_insert ∅ ty⟩
      rw [contains_single hty, beq_iff_eq, put, List.mem_singleton]
  | insert r ty ih =>
      have hty : TokenSet.Fits ty := h ty (List.mem_append_right _ List.mem_cons_self)
      obtain ⟨s, hs, hmembers, hmark⟩ := ih fun t ht => h t (List.mem_append_left _ ht)
      refine ⟨s.insert ty, ?_, fun t => ?_, (endOfRule_insert s ty).trans hmark⟩
      · rw [build, hs]
        exact insert?_of_fits hty s
      · rw [contains_insert hty, Bool.or_eq_true, hmembers, beq_iff_eq, put, List.mem_append, List.mem_singleton]
  | union r r' ih ih' =>
      obtain ⟨s, hs, hmembers, hmark⟩ := ih fun t ht => h t (List.mem_append_left _ ht)
      obtain ⟨s', hs', hmembers', hmark'⟩ := ih' fun t ht => h t (List.mem_append_right _ ht)
      refine ⟨s.union s', ?_, fun t => ?_, ?_⟩
      · rw [build, hs, hs']
        rfl
      · rw [contains_union, Bool.or_eq_true, hmembers, hmembers', put, List.mem_append]
      · rw [marked, ← hmark, ← hmark']
        rfl
  | withEndOfRule r ih =>
      obtain ⟨s, hs, hmembers, -⟩ := ih h
      exact ⟨s.withEndOfRule, by rw [build, hs]; rfl, hmembers, rfl⟩
  | withoutEndOfRule r ih =>
      obtain ⟨s, hs, hmembers, -⟩ := ih h
      exact ⟨s.withoutEndOfRule, by rw [build, hs]; rfl, hmembers, rfl⟩

/-- **What is put together is a finite set of types with a mark.**  As long as only types with a place are put in, no step
is refused.  The members are the types that some step has put in, their number is the size, and sets with the same members
and the same mark are equal.  A union has the members of both sets and the mark if one of them has it, so that neither
order nor grouping nor repetition makes a difference. -/
theorem builds_finite_set {r : Recipe} (h : r.Fits) : ∃ s, r.build = .ok s ∧
    (∀ ty, s.contains ty = true ↔ ty ∈ r.put) ∧ s.endOfRule = r.marked ∧
    s.members.Finite ∧ s.size = s.members.ncard ∧
    (∀ t : TokenSet, (s == t) = true ↔ s.members = t.members ∧ s.endOfRule = t.endOfRule) ∧
    (∀ t : TokenSet, (s.union t).members = s.members ∪ t.members ∧
      (s.union t).endOfRule = (s.endOfRule || t.endOfRule)) ∧
    (∀ t u : TokenSet, (s.union t).union u = s.union (t.union u)) ∧
    (∀ t : TokenSet, s.union t = t.union s) ∧ s.union s = s := by
  obtain ⟨s, hs, hmembers, hmark⟩ := exists_build h
  have hfinite : s.members.Finite := by
    rw [members_eq]
    exact Finset.finite_toSet _
  refine ⟨s, hs, hmembers, hmark, hfinite, size_eq_ncard s, fun t => beq_iff_eq.trans eq_iff_members,
    fun t => ⟨members_union s t, rfl⟩, fun t u => eq_iff_members.mpr ⟨?_, Bool.or_assoc ..⟩,
    fun t => eq_iff_members.mpr ⟨?_, Bool.or_comm ..⟩, eq_iff_members.mpr ⟨?_, Bool.or_self _⟩⟩
  · rw [members_union, members_union, members_union, members_union, Set.union_assoc]
  · rw [members_union, members_union, Set.union_comm]
  · rw [members_union, Set.union_self]

/-- Types of all four words, the end of the input twice, and both reserved types. -/
def mixed : Recipe :=
  .union (.withEndOfRule (.insert (.ofList [⟨3⟩, ⟨70⟩, .eof, ⟨200⟩]) ⟨255⟩))
    (.withoutEndOfRule (.insert (.insert (.single .eof) .invalid) ⟨130⟩))

/-- They are put together, and counted once each. -/
theorem builds_finite_set_mixed : mixed.Fits ∧ ∃ s, mixed.build = .ok s ∧ s.endOfRule = true ∧
    s.contains ⟨130⟩ = true ∧ s.contains ⟨131⟩ = false ∧ s.members.ncard = 7 := by
  have hfits : mixed.Fits := by decide
  obtain ⟨s, hs, hmembers, hmark, -, hsize, -⟩ := builds_finite_set hfits
  have hrun : mixed.build.toOption.map TokenSet.size = some 7 := by decide +kernel
  rw [hs] at hrun
  refine ⟨hfits, s, hs, hmark, (hmembers _).mpr (by decide), ?_, hsize.symm.trans (Option.some.inj hrun)⟩
  exact Bool.eq_false_iff.mpr (mt (hmembers _).mp (by decide))

end Recipe

end TreeProjection.TokenSet
