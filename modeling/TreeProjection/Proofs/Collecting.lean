import TreeProjection.Proofs.Keeping

/-! # What is collected, and how it is found

The collector of syntax errors keeps a growing list of them, and beside it a table from exceptions to places in that
list.  When the parse is over, another table is made, from offsets to places.  A report is dropped if its exception has
been entered before, so the places are not those of the reports; but both tables fit the list, whatever is reported.

* `Report.heeded` — the reports that are not about an exception of which there has been a report.
* `Report.EnteredAs` — how a report is entered.
* `ErrorIndex.Faithful` — an index that fits what has been reported.
* `ErrorIndex.faithful_ofReports` — the index of any reports does. -/

namespace TreeProjection

/-! ## Reports that are heeded -/

namespace Report

/-- A report tells of an exception of which another one has told. -/
def tellsAgain (earlier r : Report) : Bool := r.exception.any fun e => earlier.tellsOf e.id

/-- **The reports that are heeded**: those of whose exception no report before them tells, in their order. -/
def heeded (rs : List Report) : List Report :=
  (rs.zipIdx.filter fun r => !(rs.take r.2).any (tellsAgain · r.1)).map Prod.fst

/-- A report at the end is heeded, unless one before it tells of its exception. -/
theorem heeded_append_singleton (rs : List Report) (r : Report) :
    heeded (rs ++ [r]) = heeded rs ++ if rs.any (tellsAgain · r) then [] else [r] := by
  have hbefore : (rs.zipIdx.filter fun s => !((rs ++ [r]).take s.2).any (tellsAgain · s.1)) =
      rs.zipIdx.filter fun s => !(rs.take s.2).any (tellsAgain · s.1) := by
    refine List.filter_congr fun s hs => ?_
    have hlt : s.2 < rs.length := by simpa using List.snd_lt_add_of_mem_zipIdx hs
    rw [List.take_append_of_le_length (Nat.le_of_lt hlt)]
  unfold heeded
  rw [List.zipIdx_append, List.filter_append, List.map_append, hbefore]
  cases hagain : rs.any (tellsAgain · r) <;> simp [hagain]

/-- The first report that tells of an exception is heeded. -/
theorem find?_heeded (rs : List Report) (id : Nat) :
    (heeded rs).find? (·.tellsOf id) = rs.find? (·.tellsOf id) := by
  induction rs using List.reverseRecOn with
  | nil => rfl
  | append_singleton rs r ih =>
      rw [heeded_append_singleton, List.find?_append, List.find?_append, ih]
      cases hagain : rs.any (tellsAgain · r) with
      | false => rfl
      | true =>
          -- the report is not heeded, and one before it tells of its exception
          cases htells : r.tellsOf id with
          | false => simp [htells]
          | true =>
              obtain ⟨r', hr', hsame⟩ := List.any_eq_true.mp hagain
              obtain ⟨e, he, hid⟩ := (Option.any_eq_true _ _).mp hsame
              have heid : e.id = id := by simpa [tellsOf, he] using htells
              have hfound : (rs.find? (·.tellsOf id)).isSome := List.find?_isSome.mpr ⟨r', hr', heid ▸ hid⟩
              rw [Option.or_of_isSome hfound, Option.or_of_isSome hfound]

/-- **How a report is entered**: with its text and the number of its exception, at the token at which it was made.  But
where no alternative fitted, the error is at the token at which the alternatives begin. -/
structure EnteredAs (r : Report) (e : SyntaxError) : Prop where
  /-- The text is that of the report. -/
  message : e.message = r.message
  /-- The number is that of the exception. -/
  exception : e.exception = r.exception.map RecognitionException.id
  /-- Where no alternative fitted, the error is where the alternatives begin. -/
  anchored : ∀ f ∈ r.exception, ∀ start, f.kind = .noViableAlt start →
    e.offending = start ∧ e.line = start.line ∧ e.column = start.column
  /-- Otherwise it is where the report was made. -/
  placed : (∀ f ∈ r.exception, ∀ start, f.kind ≠ .noViableAlt start) →
    e.offending = r.offending ∧ e.line = r.line ∧ e.column = r.column

/-- So is a report entered by the collector. -/
theorem enteredAs_ofReport (r : Report) : r.EnteredAs (.ofReport r) := by
  unfold SyntaxError.ofReport
  cases hr : r.exception with
  | none => exact ⟨rfl, by simp [hr], by simp [hr], fun _ => ⟨rfl, rfl, rfl⟩⟩
  | some f =>
      -- only where no alternative was viable is the error placed elsewhere than the report
      cases hkind : f.kind with
      | noViableAlt start =>
          refine ⟨by simp [hkind], by simp [hr, hkind], ?_, fun hother => absurd hkind (hother f hr start)⟩
          intro f' hf' start' hstart'
          rw [hr, Option.mem_some_iff] at hf'
          subst hf'
          obtain rfl := ExceptionKind.noViableAlt.inj (hkind.symm.trans hstart')
          simp [hkind]
      | _ =>
          refine ⟨by simp [hkind], by simp [hr, hkind], ?_, fun _ => by simp [hkind]⟩
          intro f' hf' start' hstart'
          rw [hr, Option.mem_some_iff] at hf'
          rw [hf'.symm, hkind] at hstart'
          cases hstart'

end Report

namespace ErrorCollector

/-- An exception is entered if a report tells of it. -/
theorem isSome_lookup_ofReports (rs : List Report) (id : Nat) :
    ((ofReports rs).byException.lookup id).isSome = rs.any (·.tellsOf id) := by
  have hfound := ErrorIndex.forException?_ofReports rs id
  have hplaced := placed_ofReports rs id
  unfold ErrorIndex.forException? ErrorIndex.ofReports ErrorIndex.ofCollector at hfound
  have hsome : ((ofReports rs).byException.lookup id).isSome = (rs.find? (·.tellsOf id)).isSome := by
    rw [← Option.isSome_map (f := SyntaxError.ofReport), ← hfound]
    cases hlookup : (ofReports rs).byException.lookup id with
    | none => rfl
    | some place => simp [hplaced place hlookup]
  rw [hsome]
  exact Bool.eq_iff_iff.mpr (by simp)

/-- **The reports that are heeded are entered**, in their order. -/
theorem errors_eq_heeded (rs : List Report) :
    (ofReports rs).errors.toList = (Report.heeded rs).map SyntaxError.ofReport := by
  induction rs using List.reverseRecOn with
  | nil => rfl
  | append_singleton rs r ih =>
      have hhear : ofReports (rs ++ [r]) = (ofReports rs).hear r := by simp [ofReports]
      rw [hhear, Report.heeded_append_singleton, List.map_append, ← ih]
      unfold hear Report.tellsAgain
      cases r.exception with
      | none => simp
      | some e =>
          simp only [isSome_lookup_ofReports, Option.any_some]
          by_cases hknown : rs.any (·.tellsOf e.id) = true
          · simp only [if_pos hknown, List.map_nil, List.append_nil]
          · simp only [if_neg hknown, Array.toList_push, List.map_singleton]

end ErrorCollector

/-! ## Errors by their offsets -/

namespace ErrorIndex

/-- **Places are entered under an offset** in the order of their errors, the last one first. -/
theorem lookup_foldl_zipIdx (es : List SyntaxError) (n : Nat) (acc : List (Nat × List Nat)) (o : Nat) :
    (((es.zipIdx n).foldl (fun acc e => enter e.1.offset e.2 acc) acc).lookup o).getD [] =
      (((es.zipIdx n).filter fun e => e.1.offset == o).map Prod.snd).reverse ++ (acc.lookup o).getD [] := by
  induction es generalizing n acc with
  | nil => rfl
  | cons e es ih =>
      rw [List.zipIdx_cons, List.foldl_cons, ih, lookup_enter]
      by_cases ho : o = e.offset
      · simp [ho]
      · rw [if_neg ho, List.filter_cons_of_neg (by simpa using fun h => ho h.symm)]

/-- Elements that are looked up by their places are the elements. -/
theorem filterMap_places {α : Type} (as : List α) (keep : α → Bool) :
    ((as.zipIdx.filter fun a => keep a.1).map Prod.snd).filterMap (fun place => as[place]?) = as.filter keep := by
  have hplace : ∀ a ∈ as.zipIdx.filter fun a => keep a.1, as[a.2]? = some a.1 :=
    fun a ha => List.mem_zipIdx_iff_getElem?.mp (List.mem_filter.mp ha).1
  rw [List.filterMap_map, List.filterMap_congr (g := fun a => some a.1) hplace, List.filterMap_eq_map']
  conv_rhs => rw [← List.zipIdx_map_fst 0 as, List.filter_map]
  rfl

/-- **The errors at an offset** are found in the order in which they were collected. -/
theorem allAt_ofCollector (c : ErrorCollector) (o : Nat) :
    (ofCollector c).allAt o = c.errors.toList.filter fun e => e.offset == o := by
  have hplaces := filterMap_places c.errors.toList fun e => e.offset == o
  simp only [Array.getElem?_toList] at hplaces
  unfold allAt ofCollector
  rw [lookup_foldl_zipIdx, List.lookup_nil, Option.getD_none, List.append_nil, List.reverse_reverse]
  exact hplaces

/-- The offsets after a place has been entered. -/
theorem map_fst_enter (offset place : Nat) (acc : List (Nat × List Nat)) : (enter offset place acc).map Prod.fst =
    if offset ∈ acc.map Prod.fst then acc.map Prod.fst else acc.map Prod.fst ++ [offset] := by
  induction acc with
  | nil => rfl
  | cons entry acc ih =>
      obtain ⟨o, places⟩ := entry
      rw [enter]
      by_cases ho : o = offset
      · simp [ho]
      · simp only [if_neg ho, List.map_cons, ih, List.mem_cons, Ne.symm ho, false_or]
        split <;> rfl

/-- A place is entered once. -/
theorem perm_enter (offset place : Nat) (acc : List (Nat × List Nat)) :
    ((enter offset place acc).flatMap Prod.snd).Perm (place :: acc.flatMap Prod.snd) := by
  induction acc with
  | nil => exact .refl _
  | cons entry acc ih =>
      obtain ⟨o, places⟩ := entry
      rw [enter]
      split
      · exact .refl _
      · rw [List.flatMap_cons, List.flatMap_cons]
        exact (ih.append_left places).trans List.perm_middle

/-- **A table from offsets to places**: no offset stands twice, those of the errors stand there, and each place of an error
stands under one of them. -/
structure Tabulates (table : List (Nat × List Nat)) (es : List (SyntaxError × Nat)) : Prop where
  /-- No offset stands twice. -/
  nodup : (table.map Prod.fst).Nodup
  /-- There are errors at those that stand there. -/
  mem_iff : ∀ o, o ∈ table.map Prod.fst ↔ ∃ e ∈ es, e.1.offset = o
  /-- Each place stands under one offset. -/
  places : (table.flatMap Prod.snd).Perm (es.map Prod.snd)

/-- One more error is entered. -/
theorem Tabulates.enter {table : List (Nat × List Nat)} {es : List (SyntaxError × Nat)} (h : Tabulates table es)
    (e : SyntaxError × Nat) : Tabulates (enter e.1.offset e.2 table) (es ++ [e]) := by
  -- The offset of the error either has an entry, which grows, or gets one at the end.
  refine ⟨?_, fun o => ?_, ?_⟩
  · rw [map_fst_enter]
    split
    · exact h.nodup
    · rename_i hnew
      refine List.nodup_append.mpr ⟨h.nodup, by simp, ?_⟩
      intro o ho o' ho' heq
      exact hnew (List.mem_singleton.mp ho' ▸ heq ▸ ho)
  · have hmem : o ∈ (ErrorIndex.enter e.1.offset e.2 table).map Prod.fst ↔ o ∈ table.map Prod.fst ∨ e.1.offset = o := by
      rw [map_fst_enter]
      split
      · rename_i hold
        exact ⟨.inl, fun ho => ho.elim id fun heq => heq ▸ hold⟩
      · rw [List.mem_append, List.mem_singleton, eq_comm]
    simp only [hmem, h.mem_iff, List.mem_append, List.mem_singleton, or_and_right, exists_or, exists_eq_left]
  · rw [List.map_append, List.map_singleton]
    exact (perm_enter _ _ _).trans ((h.places.cons e.2).trans (List.perm_append_singleton _ _).symm)

/-- **The table of an index holds all its errors.** -/
theorem tabulates_foldl (es : List (SyntaxError × Nat)) :
    Tabulates (es.foldl (fun acc e => enter e.1.offset e.2 acc) []) es := by
  induction es using List.reverseRecOn with
  | nil => exact ⟨.nil, by simp, .refl _⟩
  | append_singleton es e ih =>
      rw [List.foldl_append]
      exact ih.enter e

/-- Elements that are sorted by keys are all there, if every key is. -/
theorem perm_flatMap_filter {α : Type} (key : α → Nat) (keys : List Nat) (hkeys : keys.Nodup) (as : List α)
    (has : ∀ a ∈ as, key a ∈ keys) : (keys.flatMap fun k => as.filter fun a => key a == k).Perm as := by
  induction keys generalizing as with
  | nil =>
      have hnil : as = [] := List.eq_nil_iff_forall_not_mem.mpr fun a ha => nomatch has a ha
      rw [hnil]
      exact .refl _
  | cons k keys ih =>
      obtain ⟨hk, hkeys⟩ := List.nodup_cons.mp hkeys
      -- the elements with another key are sorted by the other keys
      have hothers : (keys.flatMap fun k' => as.filter fun a => key a == k') =
          keys.flatMap fun k' => (as.filter fun a => !(key a == k)).filter fun a => key a == k' := by
        refine List.flatMap_congr fun k' hk' => ?_
        rw [List.filter_filter]
        refine List.filter_congr fun a _ => ?_
        by_cases ha : key a = k'
        · simp [ha, ne_of_mem_of_not_mem hk' hk]
        · simp [ha]
      rw [List.flatMap_cons, hothers]
      refine (List.Perm.append_left _ (ih hkeys _ fun a ha => ?_)).trans (List.filter_append_perm _ as)
      rw [List.mem_filter] at ha
      exact (List.mem_cons.mp (has a ha.1)).resolve_left (by simpa using ha.2)

/-! ## The index of reports -/

/-- **An index is faithful to the reports `rs`.** -/
structure Faithful (rs : List Report) (x : ErrorIndex) : Prop where
  /-- Its errors are the reports that are heeded, in their order. -/
  heeded : List.Forall₂ Report.EnteredAs (Report.heeded rs) x.errors.toList
  /-- An exception is found by the first report that tells of it, and not if there is none. -/
  exceptions : ∀ id, Option.Rel Report.EnteredAs (rs.find? (·.tellsOf id)) (x.forException? id)
  /-- What is found is one of the errors, namely the one with this exception. -/
  found : ∀ id, x.forException? id = x.errors.toList.find? (·.exception == some id)
  /-- No exception is entered with a place beyond the errors. -/
  within : ∀ id place, x.byException.lookup id = some place → place < x.size
  /-- The errors at an offset are found in their order.  Those without a place count as being at the start. -/
  offsets : ∀ o, x.allAt o = x.errors.toList.filter fun e => e.offending.start?.getD 0 == o
  /-- No offset stands twice. -/
  nodup : (x.byOffset.map Prod.fst).Nodup
  /-- There are errors at those that stand there. -/
  mem_iff : ∀ o, o ∈ x.byOffset.map Prod.fst ↔ x.allAt o ≠ []
  /-- The place of each error stands under one offset. -/
  places : (x.byOffset.flatMap Prod.snd).Perm (List.range x.size)
  /-- Each error is found at one offset, so that the errors are all there at any offsets among which theirs are. -/
  partition : ∀ os : List Nat, os.Nodup → (∀ o, x.allAt o ≠ [] → o ∈ os) → (os.flatMap x.allAt).Perm x.errors.toList
  /-- Where there are no errors there is no text. -/
  silent : ∀ o, x.messagesAt? o = none ↔ x.allAt o = []
  /-- Where there are errors, their texts are joined by line feeds. -/
  messages : ∀ o, x.allAt o ≠ [] →
    x.messagesAt? o = some ("\n".intercalate ((x.allAt o).map SyntaxError.message))

/-- There are errors at an offset if there is one whose offset it is. -/
theorem allAt_ofCollector_ne_nil {c : ErrorCollector} {o : Nat} :
    (ofCollector c).allAt o ≠ [] ↔ ∃ e ∈ c.errors.toList, e.offset = o := by
  simp [allAt_ofCollector]

/-- The offsets in the table of an index are those at which there are errors. -/
theorem mem_byOffset_ofCollector (c : ErrorCollector) (o : Nat) :
    o ∈ (ofCollector c).byOffset.map Prod.fst ↔ (ofCollector c).allAt o ≠ [] := by
  rw [allAt_ofCollector_ne_nil]
  refine ((tabulates_foldl c.errors.toList.zipIdx).mem_iff o).trans ⟨?_, ?_⟩
  · rintro ⟨e, he, ho⟩
    exact ⟨e.1, List.fst_mem_of_mem_zipIdx he, ho⟩
  · rintro ⟨e, he, ho⟩
    obtain ⟨i, hi, hget⟩ := List.mem_iff_getElem.mp he
    exact ⟨(e, i), List.mem_zipIdx_iff_getElem?.mpr (List.getElem?_eq_some_iff.mpr ⟨hi, hget⟩), ho⟩

/-- **An exception is found among the errors**, by its number. -/
theorem forException?_ofReports_eq_find? (rs : List Report) (id : Nat) :
    (ofReports rs).forException? id = (ofReports rs).errors.toList.find? (·.exception == some id) := by
  have hexception : ((·.exception == some id) : SyntaxError → Bool) ∘ SyntaxError.ofReport = Report.tellsOf id := by
    funext r
    rw [Function.comp_apply, r.enteredAs_ofReport.exception, Report.tellsOf]
  have herrors : (ofReports rs).errors.toList = (Report.heeded rs).map SyntaxError.ofReport :=
    ErrorCollector.errors_eq_heeded rs
  rw [forException?_ofReports, herrors, List.find?_map, hexception, Report.find?_heeded]

/-- **The index of reports is faithful to them**, whatever is reported: with or without exceptions, of one exception as
often as it may be, and at tokens with or without a place. -/
theorem faithful_ofReports (rs : List Report) : (ofReports rs).Faithful rs := by
  have herrors : (ofReports rs).errors.toList = (Report.heeded rs).map SyntaxError.ofReport :=
    ErrorCollector.errors_eq_heeded rs
  have htable := tabulates_foldl (ErrorCollector.ofReports rs).errors.toList.zipIdx
  constructor
  case heeded =>
    rw [herrors, List.forall₂_map_right_iff, List.forall₂_same]
    exact fun r _ => r.enteredAs_ofReport
  case exceptions =>
    intro id
    rw [forException?_ofReports]
    cases rs.find? (·.tellsOf id) with
    | none => exact .none
    | some r => exact .some r.enteredAs_ofReport
  case found => exact forException?_ofReports_eq_find? rs
  case within => exact ErrorCollector.placed_ofReports rs
  case offsets => exact allAt_ofCollector _
  case nodup => exact htable.nodup
  case mem_iff => exact mem_byOffset_ofCollector _
  case places =>
    have hplaces := htable.places
    rw [List.zipIdx_map_snd, ← List.range_eq_range'] at hplaces
    exact hplaces
  case partition =>
    intro os hos hcover
    have hoffsets : (ofReports rs).allAt = fun o => (ofReports rs).errors.toList.filter fun e => e.offset == o :=
      funext (allAt_ofCollector _)
    rw [hoffsets]
    exact perm_flatMap_filter SyntaxError.offset os hos _ fun e he =>
      hcover e.offset (allAt_ofCollector_ne_nil.mpr ⟨e, he, rfl⟩)
  case silent =>
    intro o
    unfold messagesAt?
    cases (ofReports rs).allAt o <;> simp
  case messages =>
    intro o hne
    unfold messagesAt?
    cases hall : (ofReports rs).allAt o with
    | nil => exact absurd hall hne
    | cons e es => rfl

end ErrorIndex

end TreeProjection
