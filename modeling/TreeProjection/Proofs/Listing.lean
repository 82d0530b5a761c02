import TreeProjection.Proofs.Members
import TreeProjection.Vocabulary

/-! # What a set of token types lists

Four functions tell what is in a set, and each reads the words in its own way: `TokenSet.contains` tests a bit,
`TokenSet.size` counts bits, `TokenSet.isEmpty` compares words with zero, and `TokenSet.toList` tries the types one after
the other.  The last begins with the type numbered `1`.  So the reserved type `TokenType.invalid`, which may be put in as
any other, is a member that is counted but not listed, and it is missing in messages too.  All else agrees.

* `TokenSet.Precedes`, `TokenSet.Enumerates` — the order of a listing, and a listing of all members.
* `TokenSet.places_perm` — all places but one are tried.
* `Vocabulary.Lists`, `TokenSet.lists_displaySet` — the text of a set.
* `TokenSet.lists_members` — what is listed, and when it is everything.
* `TokenSet.omits_invalid` — a member that is not. -/

namespace TreeProjection

/-- **A text lists types**: a single one by its name, otherwise all names in braces. -/
inductive Vocabulary.Lists (v : Vocabulary) : List TokenType → String → Prop where
  /-- A single type. -/
  | one (ty : TokenType) : v.Lists [ty] (v.elementName ty)
  /-- No type, or several. -/
  | braces {l : List TokenType} (h : l.length ≠ 1) :
      v.Lists l ("\x7b" ++ ", ".intercalate (l.map v.elementName) ++ "\x7d")

namespace TokenSet

variable {s : TokenSet} {l l' : List TokenType} {t u : TokenType}

/-- A type comes before another: the end of the input is first, the others ascend. -/
def Precedes (t u : TokenType) : Prop := u ≠ .eof ∧ (t = .eof ∨ t.code.toNat < u.code.toNat)

instance (t u : TokenType) : Decidable (Precedes t u) := inferInstanceAs (Decidable (_ ∧ _))

/-- No type comes before itself. -/
theorem Precedes.ne (h : Precedes t u) : t ≠ u := by
  rintro rfl
  exact h.2.elim h.1 (Nat.lt_irrefl _)

/-- Of two types, only one comes before the other. -/
theorem Precedes.asymm (h : Precedes t u) : ¬ Precedes u t := fun h' =>
  h.2.elim h'.1 fun hlt => h'.2.elim h.1 fun hgt => Nat.lt_asymm hlt hgt

/-- **A list enumerates a set**: it has every member once and nothing else, the end of the input first, then ascending. -/
structure Enumerates (l : List TokenType) (s : TokenSet) : Prop where
  /-- It has the members. -/
  mem_iff : ∀ t, t ∈ l ↔ s.contains t = true
  /-- They are in order. -/
  ordered : l.Pairwise Precedes

/-- What is in order has nothing twice. -/
theorem nodup_of_ordered (h : l.Pairwise Precedes) : l.Nodup := h.imp Precedes.ne

/-- **There is only one enumeration.** -/
theorem Enumerates.eq (h : Enumerates l s) (h' : Enumerates l' s) : l = l' := by
  have hperm : l.Perm l' := (List.perm_ext_iff_of_nodup (nodup_of_ordered h.ordered) (nodup_of_ordered h'.ordered)).mpr
    fun t => (h.mem_iff t).trans (h'.mem_iff t).symm
  exact hperm.eq_of_pairwise (fun _ _ _ _ htu hut => absurd hut htu.asymm) h.ordered h'.ordered

/-! ## The types that are tried -/

/-- **Every place is tried but that of `TokenType.invalid`.** -/
theorem places_perm : places.Perm (.invalid :: types) := by
  have hrange : List.range capacity = 0 :: List.range' 1 (capacity - 1) := by
    rw [List.range_eq_range']
    exact List.range'_succ
  rw [places, types, hrange, List.map_cons]
  exact List.Perm.swap ..

/-- The types that are tried are in order. -/
theorem pairwise_types : types.Pairwise Precedes := by
  have hcode : ∀ n ∈ List.range' 1 (capacity - 1), (UInt16.ofNat n).toNat = n := fun n hn =>
    toNat_ofNat (List.mem_range'_1.mp hn).2
  have hnodup := List.nodup_cons.mp (places_perm.nodup_iff.mp nodup_places)
  refine List.pairwise_cons.mpr ⟨fun t ht => ⟨?_, .inl rfl⟩, List.pairwise_map.mpr ?_⟩
  · exact fun heof => (List.nodup_cons.mp hnodup.2).1 (heof ▸ ht)
  · have hascending : (List.range' 1 (capacity - 1)).Pairwise (· < ·) := List.pairwise_lt_range' ..
    refine hascending.imp_of_mem fun {m n} hm hn hlt => ⟨?_, .inr ?_⟩
    · intro heof
      have hmax := congrArg (fun ty : TokenType => ty.code.toNat) heof
      rw [hcode n hn] at hmax
      exact absurd (hmax ▸ (List.mem_range'_1.mp hn).2) (by decide)
    · rwa [hcode m hm, hcode n hn]

/-- **What is listed** is every member but `TokenType.invalid`. -/
theorem mem_toList_iff : t ∈ s.toList ↔ s.contains t = true ∧ t ≠ .invalid := by
  rw [toList, List.mem_filter, and_comm]
  refine and_congr_right fun hmem => ⟨fun ht => ?_, fun hne => ?_⟩
  · have hnodup := List.nodup_cons.mp (places_perm.nodup_iff.mp nodup_places)
    exact fun hinvalid => hnodup.1 (hinvalid ▸ ht)
  · exact (List.mem_cons.mp (places_perm.mem_iff.mp (mem_places_iff.mpr (fits_of_contains hmem)))).resolve_left hne

/-- A listing is in order. -/
theorem pairwise_toList (s : TokenSet) : s.toList.Pairwise Precedes := pairwise_types.filter _

/-- **What is counted** is listed, or it is `TokenType.invalid`. -/
theorem size_eq_length (s : TokenSet) : s.size = s.toList.length + (s.contains .invalid).toNat := by
  rw [size_eq_countP, places_perm.countP_eq, List.countP_cons, List.countP_eq_length_filter, toList]
  cases s.contains .invalid <;> rfl

/-- **The listing enumerates the members** if and only if `TokenType.invalid` is not one of them. -/
theorem enumerates_toList_iff : Enumerates s.toList s ↔ s.contains .invalid = false := by
  refine ⟨fun h => ?_, fun h => ⟨fun t => ?_, pairwise_toList s⟩⟩
  · exact Bool.eq_false_iff.mpr fun hmem => (mem_toList_iff.mp ((h.mem_iff _).mpr hmem)).2 rfl
  · refine mem_toList_iff.trans (and_iff_left_of_imp fun hmem hinvalid => ?_)
    rw [hinvalid, h] at hmem
    cases hmem

/-- **A set is empty** if and only if it has no member. -/
theorem isEmpty_iff : s.isEmpty = true ↔ ∀ t, s.contains t = false := by
  refine ⟨fun h t => ?_, fun h => ?_⟩
  · obtain ⟨heof, hzero⟩ := Bool.and_eq_true_iff.mp h
    have hword : ∀ n, s.word n = 0 := fun n => by
      rw [word]
      by_cases hn : n / 64 < 4
      · rw [Vector.getElem?_eq_getElem hn, Option.getD_some]
        exact beq_iff_eq.mp (Vector.all_eq_true.mp hzero _ hn)
      · rw [Vector.getElem?_eq_none (Nat.le_of_not_lt hn), Option.getD_none]
    cases ht : t.isEof with
    | true => simpa [contains, ht] using heof
    | false => simp [contains_of_ne_eof s ht, hword]
  · have hempty : s.withoutEndOfRule = ∅ := ext_of_contains (fun t => (h t).trans (contains_empty t).symm) rfl
    have hzero : (∅ : TokenSet).isEmpty = true := by decide +kernel
    exact (congrArg isEmpty hempty).trans hzero

/-- **There is no first member** if and only if none is listed. -/
theorem first?_eq_none_iff : s.first? = none ↔ ∀ t, s.contains t = true → t = .invalid := by
  rw [first?, List.head?_eq_none_iff, List.eq_nil_iff_forall_not_mem]
  simp only [mem_toList_iff, not_and, not_not]

/-- **What is listed can be put together again**: no type is refused, and the set has the types that are listed and the
mark. -/
theorem exists_rebuilt (s : TokenSet) : ∃ s',
    s.toList.foldlM insert? (if s.endOfRule then onlyEndOfRule else ∅) = .ok s' ∧
      s'.endOfRule = s.endOfRule ∧ ∀ t, s'.contains t = true ↔ t ∈ s.toList := by
  have hfits : ∀ t ∈ s.toList, Fits t := fun t ht => fits_of_contains (mem_toList_iff.mp ht).1
  refine ⟨_, foldlM_insert?_of_fits hfits _, ?_, fun t => ?_⟩
  · rw [endOfRule_foldl_insert]
    cases s.endOfRule <;> rfl
  · rw [contains_foldl_insert hfits]
    refine or_iff_right ?_
    split
    · rw [onlyEndOfRule, contains_withEndOfRule, contains_empty]
      exact Bool.false_ne_true
    · rw [contains_empty]
      exact Bool.false_ne_true

/-- **The text of a set** lists what the set lists. -/
theorem lists_displaySet (v : Vocabulary) (s : TokenSet) :
    v.Lists s.toList (v.displaySet s) := by
  by_cases hlength : s.toList.length = 1
  · obtain ⟨ty, hty⟩ := List.length_eq_one_iff.mp hlength
    rw [Vocabulary.displaySet, hty]
    exact .one ty
  · have hbraces : v.displaySet s = "\x7b" ++ ", ".intercalate (s.toList.map v.elementName) ++ "\x7d" := by
      rw [Vocabulary.displaySet]
      split
      next name h => exact absurd ((List.length_map ..).symm.trans (congrArg List.length h)) hlength
      next => rfl
    rw [hbraces]
    exact .braces hlength

/-! ## What is listed, and when it is everything -/

/-- **What a set lists.**  For every set: the members but `TokenType.invalid` are listed, each once, the end of the input
first and then ascending; their number is the size, less one if `TokenType.invalid` is a member; the set is empty if it has
no member, and has no first member if none is listed; what is listed, with the mark, can be put together again; and the
text of the set names what is listed.  If and only if `TokenType.invalid` is not a member, the listing enumerates the
members, has as many types as there are members, and rebuilds the set; and then there is no first member if and only if
the set is empty, and the text names the enumeration. -/
theorem lists_members (s : TokenSet) (v : Vocabulary) :
    (∀ t, t ∈ s.toList ↔ s.contains t = true ∧ t ≠ .invalid) ∧ s.toList.Pairwise Precedes ∧
    s.size = s.toList.length + (s.contains .invalid).toNat ∧
    (s.isEmpty = true ↔ ∀ t, s.contains t = false) ∧
    (s.first? = none ↔ ∀ t, s.contains t = true → t = .invalid) ∧
    (∃ s', s.toList.foldlM insert? (if s.endOfRule then onlyEndOfRule else ∅) = .ok s' ∧
      s'.endOfRule = s.endOfRule ∧ ∀ t, s'.contains t = true ↔ s.contains t = true ∧ t ≠ .invalid) ∧
    v.Lists s.toList (v.displaySet s) ∧
    (Enumerates s.toList s ↔ s.contains .invalid = false) ∧
    (s.toList.length = s.size ↔ s.contains .invalid = false) ∧
    (s.toList.foldlM insert? (if s.endOfRule then onlyEndOfRule else ∅) = .ok s ↔ s.contains .invalid = false) ∧
    (s.contains .invalid = false → (s.first? = none ↔ s.isEmpty = true) ∧
      ∀ l, Enumerates l s → v.Lists l (v.displaySet s)) := by
  obtain ⟨s', hrebuilt, hmark, hlisted⟩ := exists_rebuilt s
  have hmembers : ∀ t, s'.contains t = true ↔ s.contains t = true ∧ t ≠ .invalid := fun t =>
    (hlisted t).trans mem_toList_iff
  refine ⟨fun t => mem_toList_iff, pairwise_toList s, size_eq_length s, isEmpty_iff, first?_eq_none_iff,
    ⟨s', hrebuilt, hmark, hmembers⟩, lists_displaySet v s, enumerates_toList_iff, ?_, ?_, fun h => ⟨?_, fun l hl => ?_⟩⟩
  · rw [size_eq_length]
    cases s.contains .invalid <;> simp
  · rw [hrebuilt, Except.ok.injEq]
    refine ⟨fun heq => ?_, fun h => ext_of_contains (fun t => Bool.eq_iff_iff.mpr ?_) hmark⟩
    · exact Bool.eq_false_iff.mpr fun hmem => ((hmembers _).mp (heq ▸ hmem)).2 rfl
    · exact (hlisted t).trans ((enumerates_toList_iff.mpr h).mem_iff t)
  · rw [first?_eq_none_iff, isEmpty_iff]
    refine forall_congr' fun t => ⟨fun ht => Bool.eq_false_iff.mpr fun hmem => ?_, fun ht hmem => ?_⟩
    · rw [ht hmem, h] at hmem
      cases hmem
    · rw [ht] at hmem
      cases hmem
  · rw [hl.eq (enumerates_toList_iff.mpr h)]
    exact lists_displaySet v s

/-- With the end of the input, a type of the last word and the mark, all members are listed. -/
theorem lists_members_marked : ∃ s : TokenSet, s.toList = [.eof, ⟨7⟩, ⟨255⟩] ∧ s.contains .invalid = false ∧
    Enumerates s.toList s ∧ s.toList.foldlM insert? onlyEndOfRule = .ok s ∧
    (Vocabulary.ofNames [] []).displaySet s = "\x7b<EOF>, 7, 255\x7d" := by
  have hout : ((ofList [⟨255⟩, .eof, ⟨7⟩]).withEndOfRule).contains .invalid = false := by decide
  obtain ⟨-, -, -, -, -, -, -, henumerates, -, hrebuilt, -⟩ :=
    lists_members (ofList [⟨255⟩, .eof, ⟨7⟩]).withEndOfRule (.ofNames [] [])
  exact ⟨_, by decide +kernel, hout, henumerates.mpr hout, hrebuilt.mpr hout, by decide +kernel⟩

/-- **A member that is not listed.**  `TokenType.invalid` can be put into a set.  It is then a member and is counted, and
the set is not empty, but nothing is listed, there is no first member, what is listed does not rebuild the set, and the
text shows an empty set. -/
theorem omits_invalid : ∃ s, ofList? [.invalid] = .ok s ∧ s.contains .invalid = true ∧ s.size = 1 ∧
    s.isEmpty = false ∧ s.toList = [] ∧ s.first? = none ∧ s.toList.foldlM insert? ∅ ≠ .ok s ∧
    ∀ v : Vocabulary, v.displaySet s = "\x7b\x7d" := by
  have hnone : (single .invalid).toList = [] := by decide +kernel
  refine ⟨single .invalid, by decide, by decide, by decide +kernel, by decide +kernel, hnone, ?_, ?_, fun v => ?_⟩
  · rw [first?, hnone]
    rfl
  · rw [hnone]
    decide
  · rw [Vocabulary.displaySet, hnone]
    rfl

end TokenSet

end TreeProjection
