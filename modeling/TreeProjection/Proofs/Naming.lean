import Mathlib.Data.List.Induction
import Mathlib.Data.List.Nodup
import TreeProjection.Projection.Session
import TreeProjection.Proofs.Kinds

/-! # Names and numbers of rules

A language is given its rules as a list of names.  A name that is listed again keeps its slot, but goes by the number of
its last place.  So the two ways between names and numbers undo each other for lists without repetitions, and for no
others.

* `Language.LastPlace` — where a name is listed for the last time.
* `Language.Enters` — a table of rules that holds the names of a list.
* `Language.rules_of_names` — what the rules of a language are, in terms of the names that it was given. -/

namespace TreeProjection.Language

/-! ## Lists with repetitions -/

/-- **The last place of a name** in a list of names. -/
def LastPlace (names : List String) (n : String) (i : Nat) : Prop :=
  names[i]? = some n ∧ ∀ j, i < j → names[j]? ≠ some n

/-- There is one last place of a name at most. -/
theorem LastPlace.eq {names : List String} {n : String} {i j : Nat} (hi : LastPlace names n i)
    (hj : LastPlace names n j) : i = j := by
  rcases Nat.lt_trichotomy i j with hlt | heq | hgt
  · exact absurd hj.1 (hi.2 j hlt)
  · exact heq
  · exact absurd hi.1 (hj.2 i hgt)

/-- The last place of the name at the end is the end. -/
theorem lastPlace_append_self (names : List String) (n : String) : LastPlace (names ++ [n]) n names.length := by
  refine ⟨by simp, fun j hlt => ?_⟩
  rw [List.getElem?_eq_none (by simpa using Nat.succ_le_of_lt hlt)]
  exact nofun

/-- A name at the end leaves the last places of other names as they are. -/
theorem LastPlace.append_singleton {names : List String} {m n : String} {i : Nat} (h : LastPlace names m i)
    (hne : m ≠ n) : LastPlace (names ++ [n]) m i := by
  obtain ⟨hlt, -⟩ := List.getElem?_eq_some_iff.mp h.1
  refine ⟨by rw [List.getElem?_append_left hlt, h.1], fun j hj hjth => ?_⟩
  rcases Nat.lt_trichotomy j names.length with hbefore | rfl | hafter
  · rw [List.getElem?_append_left hbefore] at hjth
    exact h.2 j hj hjth
  · rw [List.getElem?_concat_length, Option.some.injEq] at hjth
    exact hne hjth.symm
  · rw [List.getElem?_eq_none (by simpa using Nat.succ_le_of_lt hafter)] at hjth
    cases hjth

/-- Without repetitions, every place is the last one of its name. -/
theorem lastPlace_iff_of_nodup {names : List String} (h : names.Nodup) (n : String) (i : Nat) :
    LastPlace names n i ↔ names[i]? = some n := by
  refine ⟨And.left, fun hi => ⟨hi, fun j hlt hj => ?_⟩⟩
  obtain ⟨hlen, -⟩ := List.getElem?_eq_some_iff.mp hi
  exact Nat.ne_of_lt hlt ((List.getElem?_inj hlen h).mp (hi.trans hj.symm))

/-- A name at the end is new, or it is dropped. -/
theorem eraseDups_append_singleton (names : List String) (n : String) :
    (names ++ [n]).eraseDups = if n ∈ names then names.eraseDups else names.eraseDups ++ [n] := by
  rw [List.eraseDups_append]
  split <;> rename_i h <;> simp [List.removeAll, List.eraseDups_cons, h]

/-- Without its repetitions a list has none. -/
theorem nodup_eraseDups (names : List String) : names.eraseDups.Nodup := by
  induction names using List.reverseRecOn with
  | nil => exact List.nodup_nil
  | append_singleton names n ih =>
      rw [eraseDups_append_singleton]
      split
      · exact ih
      · rename_i hnew
        rw [List.nodup_append]
        refine ⟨ih, List.nodup_singleton n, fun m hm m' hm' heq => hnew ?_⟩
        rw [← List.mem_singleton.mp hm', ← heq]
        exact List.mem_eraseDups.mp hm

/-- Nothing but repetitions is dropped. -/
theorem eraseDups_sublist (names : List String) : names.eraseDups.Sublist names := by
  induction names using List.reverseRecOn with
  | nil => exact List.Sublist.refl []
  | append_singleton names n ih =>
      rw [eraseDups_append_singleton]
      split
      · exact ih.trans (List.sublist_append_left names [n])
      · exact ih.append_right [n]

/-- A list without repetitions stays as it is. -/
theorem eraseDups_eq_self {names : List String} (h : names.Nodup) : names.eraseDups = names := by
  induction names using List.reverseRecOn with
  | nil => rfl
  | append_singleton names n ih =>
      obtain ⟨hnames, -, hnew⟩ := List.nodup_append.mp h
      rw [eraseDups_append_singleton, if_neg fun hn => hnew n hn n (List.mem_singleton_self n) rfl, ih hnames]

/-- A list that is not shortened has no repetitions. -/
theorem nodup_iff_length_le (names : List String) : names.Nodup ↔ names.length ≤ names.eraseDups.length := by
  constructor
  · intro h
    exact Nat.le_of_eq (congrArg List.length (eraseDups_eq_self h).symm)
  · intro hle
    rw [← (eraseDups_sublist names).eq_of_length_le hle]
    exact nodup_eraseDups names

/-! ## Entering names -/

/-- **A table that holds the names of a list**: each name once, in the order of first places, with the number of its
last place. -/
structure Enters (rules : Array (String × RuleIndex)) (names : List String) : Prop where
  /-- The names are those of the list. -/
  keys : rules.toList.map Prod.fst = names.eraseDups
  /-- Each of them goes by the number of its last place. -/
  numbered : ∀ p ∈ rules, ∃ i, LastPlace names p.1 i ∧ p.2 = ⟨.ofNat i⟩

/-- A name that the table has keeps its slot. -/
theorem toList_enterRule_of_mem {rules : Array (String × RuleIndex)} {n : String} (r : RuleIndex)
    (h : n ∈ rules.toList.map Prod.fst) :
    ∃ i, (rules.toList.map Prod.fst)[i]? = some n ∧ (enterRule rules n r).toList = rules.toList.set i (n, r) := by
  unfold enterRule
  cases hfind : rules.findIdx? (·.1 == n) with
  | none =>
      obtain ⟨p, hp, hpn⟩ := List.mem_map.mp h
      have hother := Array.findIdx?_eq_none_iff.mp hfind p (by simpa using hp)
      simp [hpn] at hother
  | some i =>
      obtain ⟨hi, hkey, -⟩ := Array.findIdx?_eq_some_iff_getElem.mp hfind
      exact ⟨i, by simpa [hi] using hkey, Array.toList_setIfInBounds⟩

/-- A new name is entered at the end. -/
theorem toList_enterRule_of_notMem {rules : Array (String × RuleIndex)} {n : String} (r : RuleIndex)
    (h : n ∉ rules.toList.map Prod.fst) : (enterRule rules n r).toList = rules.toList ++ [(n, r)] := by
  have hfind : rules.findIdx? (·.1 == n) = none := by
    rw [Array.findIdx?_eq_none_iff]
    intro p hp
    rw [beq_eq_false_iff_ne]
    rintro rfl
    exact h (List.mem_map_of_mem (by simpa using hp))
  simp [enterRule, hfind]

/-- **One name more**: it is entered with the number of its place. -/
theorem Enters.enterRule {rules : Array (String × RuleIndex)} {names : List String} (h : Enters rules names)
    (n : String) : Enters (enterRule rules n ⟨.ofNat names.length⟩) (names ++ [n]) := by
  by_cases hknown : n ∈ names
  · -- the name stays in its slot, which gets the number of the new place
    have hmem : n ∈ rules.toList.map Prod.fst := by rwa [h.keys, List.mem_eraseDups]
    obtain ⟨i, hi, hset⟩ := toList_enterRule_of_mem ⟨.ofNat names.length⟩ hmem
    refine ⟨?_, fun p hp => ?_⟩
    · obtain ⟨hlt, hget⟩ := List.getElem?_eq_some_iff.mp hi
      rw [hset, List.map_set, eraseDups_append_singleton, if_pos hknown, ← h.keys]
      conv_lhs => rw [← hget]
      exact List.set_getElem_self hlt
    · obtain ⟨j, hj⟩ := List.mem_iff_getElem?.mp (hset ▸ Array.mem_toList_iff.mpr hp)
      rw [List.getElem?_set] at hj
      split at hj
      · obtain ⟨-, rfl⟩ : _ ∧ (n, _) = p := by simpa using hj
        exact ⟨names.length, lastPlace_append_self names n, rfl⟩
      · -- another slot holds another name
        rename_i hij
        obtain ⟨k, hk, hnumber⟩ := h.numbered p (Array.mem_toList_iff.mp (List.mem_iff_getElem?.mpr ⟨j, hj⟩))
        refine ⟨k, hk.append_singleton ?_, hnumber⟩
        rintro rfl
        have hjth : (rules.toList.map Prod.fst)[j]? = some p.1 := by rw [List.getElem?_map, hj, Option.map_some]
        obtain ⟨hlt, -⟩ := List.getElem?_eq_some_iff.mp hi
        exact hij ((List.getElem?_inj hlt (h.keys ▸ nodup_eraseDups names)).mp (hi.trans hjth.symm))
  · -- the name gets a slot of its own
    have hpush := toList_enterRule_of_notMem ⟨.ofNat names.length⟩ (h.keys ▸ mt List.mem_eraseDups.mp hknown)
    refine ⟨?_, fun p hp => ?_⟩
    · rw [hpush, List.map_append, h.keys, eraseDups_append_singleton, if_neg hknown, List.map_singleton]
    · rw [← Array.mem_toList_iff, hpush, List.mem_append, List.mem_singleton] at hp
      rcases hp with hold | rfl
      · obtain ⟨k, hk, hnumber⟩ := h.numbered p (Array.mem_toList_iff.mp hold)
        refine ⟨k, hk.append_singleton ?_, hnumber⟩
        rintro rfl
        exact hknown (List.mem_of_getElem? hk.1)
      · exact ⟨names.length, lastPlace_append_self names n, rfl⟩

/-- **The table of a list of names** holds its names. -/
theorem enters_foldl (names : List String) :
    Enters (names.zipIdx.foldl (fun rules p => Language.enterRule rules p.1 ⟨.ofNat p.2⟩) #[]) names := by
  induction names using List.reverseRecOn with
  | nil => exact ⟨rfl, nofun⟩
  | append_singleton names n ih =>
      rw [List.zipIdx_append, List.foldl_append]
      simpa using ih.enterRule n

variable {l : Language} {name : String} {vocabulary : Vocabulary} {names : List String}

/-- **The rules of a language** hold the names that it was given, and its kinds are laid out for them. -/
theorem enters_of_names (h : ofNames? name vocabulary names = .ok l) :
    Enters l.rules names ∧ ElementTypes.mk? vocabulary.size l.rules.size = .ok l.elements := by
  unfold ofNames? at h
  simp only [bind, Except.bind, pure, Except.pure] at h
  split at h
  · cases h
  · rename_i hmk
    cases h
    exact ⟨enters_foldl names, hmk⟩

namespace Enters

variable (h : Enters l.rules names)
include h

/-- There are as many rules as names. -/
theorem ruleCount_eq : l.ruleCount = names.eraseDups.length := by
  rw [← h.keys, List.length_map, Array.length_toList, ruleCount]

/-- The name in a slot. -/
theorem ruleName?_eq (r : RuleIndex) : l.ruleName? r = names.eraseDups[r.toNat]? := by
  rw [← h.keys, List.getElem?_map, Array.getElem?_toList, ruleName?]

/-- A name that is found goes by the number of a last place of it. -/
theorem lastPlace_of_ruleIndex? {n : String} {r : RuleIndex} (hr : l.ruleIndex? n = some r) :
    ∃ i, LastPlace names n i ∧ r = ⟨.ofNat i⟩ := by
  obtain ⟨p, hfind, rfl⟩ := Option.map_eq_some_iff.mp hr
  obtain ⟨i, hi, hnumber⟩ := h.numbered p (Array.mem_of_find?_eq_some hfind)
  have hpn : p.1 = n := by simpa using Array.find?_some hfind
  exact ⟨i, hpn ▸ hi, hnumber⟩

/-- **The listed names are found**, and no others. -/
theorem isSome_ruleIndex?_iff (n : String) : (l.ruleIndex? n).isSome ↔ n ∈ names := by
  rw [ruleIndex?, Option.isSome_map, Array.find?_isSome, ← List.mem_eraseDups, ← h.keys, List.mem_map]
  simp

/-- **A name goes by the number of its last place.** -/
theorem ruleIndex?_eq_some_iff (n : String) (r : RuleIndex) :
    l.ruleIndex? n = some r ↔ ∃ i, LastPlace names n i ∧ r = ⟨.ofNat i⟩ := by
  refine ⟨h.lastPlace_of_ruleIndex?, ?_⟩
  rintro ⟨i, hi, rfl⟩
  obtain ⟨r, hr⟩ := Option.isSome_iff_exists.mp ((h.isSome_ruleIndex?_iff n).mpr (List.mem_of_getElem? hi.1))
  obtain ⟨j, hj, rfl⟩ := h.lastPlace_of_ruleIndex? hr
  rw [hr, hi.eq hj]

/-- **Without repetitions, names and numbers undo each other.** -/
theorem ruleIndex?_iff_ruleName? (hnodup : names.Nodup) (hsize : l.ruleCount < UInt16.size) (n : String)
    (r : RuleIndex) : l.ruleIndex? n = some r ↔ l.ruleName? r = some n := by
  rw [h.ruleCount_eq, eraseDups_eq_self hnodup] at hsize
  rw [h.ruleIndex?_eq_some_iff, h.ruleName?_eq, eraseDups_eq_self hnodup]
  constructor
  · rintro ⟨i, hi, rfl⟩
    obtain ⟨hlt, -⟩ := List.getElem?_eq_some_iff.mp hi.1
    rw [RuleIndex.toNat, UInt16.toNat_ofNat_of_lt' (Nat.lt_trans hlt hsize)]
    exact hi.1
  · intro hr
    exact ⟨r.toNat, (lastPlace_iff_of_nodup hnodup n r.toNat).mpr hr, by simp [RuleIndex.toNat]⟩

/-- **With repetitions, the number of the last name is too large**, as long as numbers do not wrap around. -/
theorem exists_ruleCount_le (hnodup : ¬ names.Nodup) (hlen : names.length ≤ UInt16.size) :
    ∃ n r, l.ruleIndex? n = some r ∧ l.ruleCount ≤ r.toNat := by
  have hshort : names.eraseDups.length < names.length := Nat.lt_of_not_le (mt (nodup_iff_length_le names).mpr hnodup)
  -- the name at the end goes by the number of the end, and there are fewer rules than places
  rcases List.eq_nil_or_concat' names with rfl | ⟨before, n, rfl⟩
  · exact absurd List.nodup_nil hnodup
  rw [List.length_append, List.length_singleton] at hshort hlen
  refine ⟨n, ⟨.ofNat before.length⟩, (h.ruleIndex?_eq_some_iff n _).mpr ⟨_, lastPlace_append_self before n, rfl⟩, ?_⟩
  rw [h.ruleCount_eq, RuleIndex.toNat, UInt16.toNat_ofNat_of_lt' (Nat.lt_of_succ_le hlen)]
  exact Nat.le_of_lt_succ hshort

end Enters

/-- A rule with a name has a number that there is a rule of. -/
theorem isSome_ruleName?_iff (r : RuleIndex) : (l.ruleName? r).isSome ↔ r.toNat < l.ruleCount := by
  simp [ruleName?, ruleCount]

/-- **The rules of a language**, in terms of the names that it was given.  Each name is in the slot of its first place,
and goes by the number of its last one.  Exactly the listed names are found.

If no name is listed twice, then names and numbers undo each other, and each name is found under a number that a run
can be entered at and that has a kind.  If one is, then neither of the two holds, as long as numbers do not wrap around:
some name is found under a number that no run can be entered at. -/
theorem rules_of_names (h : ofNames? name vocabulary names = .ok l) :
    l.ruleNames = names.eraseDups ∧
    (∀ n, (l.ruleIndex? n).isSome ↔ n ∈ names) ∧
    (∀ n r, l.ruleIndex? n = some r ↔ ∃ i, LastPlace names n i ∧ r = ⟨.ofNat i⟩) ∧
    (names.Nodup → (∀ n r, l.ruleIndex? n = some r ↔ l.ruleName? r = some n) ∧
      ∀ n ∈ names, ∃ r, l.entryRule n = .ok r ∧ l.ruleIndex? n = some r ∧ r.toNat < l.ruleCount ∧
        l.checkEntry r = .ok () ∧ ∃ kind, l.elements.rule? r = some kind ∧ l.elements.ruleIndexOf? kind = some r) ∧
    (¬ names.Nodup → names.length ≤ UInt16.size → ∃ n ∈ names, ∃ r, l.entryRule n = .ok r ∧ l.ruleName? r = none ∧
      l.ruleCount ≤ r.toNat ∧ l.checkEntry r = .error (.unknownRule s!"#{r.toNat}") ∧ l.elements.rule? r = none) := by
  obtain ⟨henters, hmk⟩ := enters_of_names h
  obtain ⟨hfits, -, hrules⟩ := ElementTypes.fits_of_mk hmk
  have hkind : ∀ r, (l.elements.rule? r).isSome ↔ r.toNat < l.ruleCount := fun r => by
    rw [ElementTypes.isSome_rule?_iff, hrules, ruleCount, RuleIndex.toNat]
  have hsize : l.ruleCount < UInt16.size := by
    rw [ruleCount, ← hrules]
    exact l.elements.ruleCount.toNat_lt
  have hentry : ∀ {n r}, l.ruleIndex? n = some r → l.entryRule n = .ok r := fun hr => by rw [entryRule, hr]
  refine ⟨henters.keys, henters.isSome_ruleIndex?_iff, henters.ruleIndex?_eq_some_iff, fun hnodup => ?_,
    fun hnodup hlen => ?_⟩
  · have hinverse := henters.ruleIndex?_iff_ruleName? hnodup hsize
    refine ⟨hinverse, fun n hn => ?_⟩
    obtain ⟨r, hr⟩ := Option.isSome_iff_exists.mp ((henters.isSome_ruleIndex?_iff n).mpr hn)
    have hname : (l.ruleName? r).isSome := by rw [(hinverse n r).mp hr, Option.isSome_some]
    have hlt := (isSome_ruleName?_iff r).mp hname
    obtain ⟨kind, hkind⟩ := Option.isSome_iff_exists.mp ((hkind r).mpr hlt)
    exact ⟨r, hentry hr, hr, hlt, by rw [checkEntry, if_pos hname], kind, hkind,
      (ElementTypes.ruleIndexOf?_eq_some_iff hfits).mpr hkind⟩
  · -- the last place of some name is beyond the slots, which are fewer than the names
    obtain ⟨n, r, hr, hle⟩ := henters.exists_ruleCount_le hnodup hlen
    have hname : ¬ (l.ruleName? r).isSome := mt (isSome_ruleName?_iff r).mp (Nat.not_lt.mpr hle)
    refine ⟨n, (henters.isSome_ruleIndex?_iff n).mp (by rw [hr, Option.isSome_some]), r, hentry hr,
      Option.not_isSome_iff_eq_none.mp hname, hle, by rw [checkEntry, if_neg hname], ?_⟩
    exact Option.not_isSome_iff_eq_none.mp (mt (hkind r).mp (Nat.not_lt.mpr hle))

/-- The language of two rules that go by given numbers. -/
def lettered (a b : RuleIndex) : Language where
  name := "letters"
  vocabulary := ⟨#[]⟩
  rules := #[("a", a), ("b", b)]
  elements := ⟨1, 2⟩

/-- Two names that undo their numbers, and two of which one is listed twice. -/
theorem rules_of_names_letters :
    (ofNames? "letters" ⟨#[]⟩ ["a", "b"] = .ok (lettered ⟨0⟩ ⟨1⟩) ∧
      (∀ n r, (lettered ⟨0⟩ ⟨1⟩).ruleIndex? n = some r ↔ (lettered ⟨0⟩ ⟨1⟩).ruleName? r = some n) ∧
      ∃ r, (lettered ⟨0⟩ ⟨1⟩).entryRule "b" = .ok r ∧ (lettered ⟨0⟩ ⟨1⟩).checkEntry r = .ok ()) ∧
    ofNames? "letters" ⟨#[]⟩ ["a", "a", "b"] = .ok (lettered ⟨1⟩ ⟨2⟩) ∧
      ∃ n ∈ ["a", "a", "b"], ∃ r, (lettered ⟨1⟩ ⟨2⟩).entryRule n = .ok r ∧ (lettered ⟨1⟩ ⟨2⟩).ruleName? r = none := by
  have honce : ofNames? "letters" ⟨#[]⟩ ["a", "b"] = .ok (lettered ⟨0⟩ ⟨1⟩) := by decide +kernel
  have htwice : ofNames? "letters" ⟨#[]⟩ ["a", "a", "b"] = .ok (lettered ⟨1⟩ ⟨2⟩) := by decide +kernel
  obtain ⟨hinverse, hfound⟩ := (rules_of_names honce).2.2.2.1 (by decide)
  obtain ⟨r, hr, -, -, hcheck, -⟩ := hfound "b" (by decide)
  obtain ⟨n, hn, r', hr', hnone, -⟩ := (rules_of_names htwice).2.2.2.2 (by decide) (by decide)
  exact ⟨⟨honce, hinverse, r, hr, hcheck⟩, htwice, n, hn, r', hr', hnone⟩

/-- **A name that is listed twice shifts the numbers that come after it.**  The slots are numbered 0 and 1, the names go
by 1 and 2; the rule with number 1 has the other name, and there is none with number 2. -/
theorem numbers_of_repeated_names : ∃ l, ofNames? "twice" (Vocabulary.ofNames [] []) ["a", "a", "b"] = .ok l ∧
    l.ruleName? ⟨0⟩ = some "a" ∧ l.ruleIndex? "a" = some ⟨1⟩ ∧
    l.ruleName? ⟨1⟩ = some "b" ∧ l.ruleIndex? "b" = some ⟨2⟩ ∧
    l.ruleName? ⟨2⟩ = none ∧ l.ruleCount = 2 ∧ l.checkEntry ⟨2⟩ = .error (.unknownRule "#2") ∧
    l.elements.rule? ⟨2⟩ = none :=
  ⟨{ lettered ⟨1⟩ ⟨2⟩ with name := "twice" }, by decide +kernel⟩

end TreeProjection.Language
