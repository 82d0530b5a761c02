import Mathlib.Data.List.Induction
import TreeProjection.Proofs.Building
import TreeProjection.Proofs.Settling

/-! # Errors that have a place in the outline

What shows an error in a parse tree becomes an error element of the outline, around the place where the error is
anchored.  A token that was passed over becomes one only if the errors at its offset have none yet; but if different
tokens stand at different offsets, then that error element is the one of the token itself.

* `Outline.Covers` — an outline has an error element around a place.
* `Outline.coversAny_ofView` — marks of an error become an error element.
* `ErrorIndex.isSome_messagesAt?` — collected errors are found by their offsets.
* `Outline.coversAny_of_settled` — every collected error has an error element. -/

namespace TreeProjection

open ParseNode (View)

/-! ## Error elements around a place -/

namespace Outline

mutual

/-- **An outline that begins with `s` tokens passed has an error element around the place `a`**: there are at most
`a` tokens passed when it is opened, and at least `a` when it is closed. -/
def Covers (a s : Nat) : Outline → Prop
  | token _ => False
  | node _ parts => CoversAny a s parts
  | error _ parts => (s ≤ a ∧ a ≤ s + (tokensOf parts).length) ∨ CoversAny a s parts

/-- One of several outlines has an error element around a place. -/
def CoversAny (a s : Nat) : List Outline → Prop
  | [] => False
  | o :: rest => Covers a s o ∨ CoversAny a (s + o.tokens.length) rest

end

variable {a s : Nat}

/-- Outlines one after the other have an error element around a place. -/
theorem coversAny_append (os os' : List Outline) : CoversAny a s (os ++ os') ↔
    CoversAny a s os ∨ CoversAny a (s + (tokensOf os).length) os' := by
  induction os generalizing s with
  | nil => simp [CoversAny, tokensOf]
  | cons o os ih =>
      rw [List.cons_append, CoversAny, CoversAny, ih, tokensOf, List.length_append, Nat.add_assoc,
        or_assoc]

/-- A single outline. -/
theorem coversAny_singleton (o : Outline) : CoversAny a s [o] ↔ Covers a s o := by
  rw [CoversAny, CoversAny, or_false]

mutual

/-- An error element has a message. -/
theorem messages_ne_nil : ∀ {o : Outline} {s : Nat}, Covers a s o → o.messages ≠ []
  | .token _, _, h => h.elim
  | .node _ _, _, h => messagesOf_ne_nil h
  | .error _ _, _, _ => List.cons_ne_nil _ _

/-- An error element among several has a message. -/
theorem messagesOf_ne_nil : ∀ {os : List Outline} {s : Nat}, CoversAny a s os → messagesOf os ≠ []
  | [], _, h => h.elim
  | _ :: _, _, .inl h => by
      rw [messagesOf]
      exact List.append_ne_nil_of_left_ne_nil (messages_ne_nil h) _
  | _ :: _, _, .inr h => by
      rw [messagesOf]
      exact List.append_ne_nil_of_right_ne_nil _ (messagesOf_ne_nil h)

end

end Outline

/-! ## Walks in two parts -/

namespace Parser.Walk

variable {x : Tape} {i j k : Nat} {ls ms : List (Bool × Token)}

/-- A walk does not go past the end. -/
theorem le_size (h : Walk x i ls j) (hi : i ≤ x.size) : j ≤ x.size := by
  induction h with
  | nil i => exact hi
  | made _ _ ih => exact ih hi
  | token _ _ _ _ ih => exact ih x.stop_le

/-- A walk in two parts. -/
theorem split (h : Walk x i (ls ++ ms) k) : ∃ j, Walk x i ls j ∧ Walk x j ms k := by
  induction ls generalizing i with
  | nil => exact ⟨i, .nil i, h⟩
  | cons l ls ih =>
      cases h with
      | made conjured h =>
          obtain ⟨j, hj, hrest⟩ := ih h
          exact ⟨j, .made conjured hj, hrest⟩
      | token matched le_size isStop h =>
          obtain ⟨j, hj, hrest⟩ := ih h
          exact ⟨j, .token matched le_size isStop hj, hrest⟩

/-- Where nothing is hidden, a walk goes on by the tokens that are passed on it. -/
theorem end_eq {vs : List View} (h : Walk x i (View.leavesOf vs) j) (hplain : x.Plain)
    (hi : i ≤ x.size) : j = i + (View.read vs).length := by
  have hpassed : View.read vs = x.between i j := h.passed
  rw [hpassed, hplain.length_between (h.le_size hi), Nat.add_sub_cancel' h.le]

/-- A leaf on a walk that was matched is a token of the input. -/
theorem not_conjured {l : Bool × Token} (h : Walk x i ls j) (hl : l ∈ ls) (hmatched : l.1 = true) :
    l.2.isConjured = false := by
  rcases h.of_mem hl with ⟨hfalse, -⟩ | ⟨a, -, -, ha⟩
  · rw [hfalse] at hmatched
    cases hmatched
  · rw [ha, Tape.isConjured_token]

end Parser.Walk

/-! ## Marks become error elements -/

/-- The offset of the token at a place; a token without one counts as one at the start. -/
def Tape.offset (x : Tape) (a : Nat) : Nat := (x.token a).start?.getD 0

/-- **Different tokens stand at different offsets**, and so does the end. -/
def Tape.Distinct (x : Tape) : Prop :=
  ∀ a b, a ≤ x.size → b ≤ x.size → x.offset a = x.offset b → a = b

namespace Outline

open TreeProjection.Parser (Walk)

variable {x : Tape} {a s j : Nat} {errors : ErrorIndex}

/-- **An error leaf at the place of an error** becomes an error element, unless the errors at its offset have one
already. -/
theorem coversAny_ofErrorLeaf (hdistinct : x.Distinct) (ha : a ≤ x.size)
    (hmessage : (errors.messagesAt? (x.offset a)).isSome) {t : Token} {spent : List Nat}
    (hwalk : Walk x s [(false, t)] j) (hs : s ≤ x.size)
    (h : x.offset a ∈ (ofErrorLeaf errors spent t).2 ∨ s = a) :
    x.offset a ∈ spent ∨ CoversAny a s (ofErrorLeaf errors spent t).1 := by
  have hcovers : ∀ message parts, s = a → CoversAny a s [.error message parts] := by
    rintro message parts rfl
    exact .inl (.inl ⟨Nat.le_refl _, Nat.le_add_right _ _⟩)
  -- a made-up token has no place, so the place asked for must be the one that it stands at
  cases hwalk with
  | made conjured _ =>
      rw [ofErrorLeaf, if_pos conjured] at h ⊢
      exact h.imp_right (hcovers _ _)
  | token _ _ _ _ =>
      have hoffset : (x.token s).start?.getD 0 = x.offset s := rfl
      rw [ofErrorLeaf, if_neg (by simp)] at h ⊢
      simp only [hoffset] at h ⊢
      -- an offset that is spent has its element already; otherwise the leaf takes the messages there
      by_cases hspent : spent.contains (x.offset s) = true
      · rw [if_pos hspent] at h ⊢
        rcases h with h | rfl
        · exact .inl h
        · exact .inl (List.contains_iff_mem.mp hspent)
      · rw [if_neg hspent] at h ⊢
        cases hfound : errors.messagesAt? (x.offset s) with
        | some message =>
            simp only [hfound] at h ⊢
            rcases h with h | h
            · rcases List.mem_cons.mp h with h | h
              · exact .inr (hcovers _ _ (hdistinct s a hs ha h.symm))
              · exact .inl h
            · exact .inr (hcovers _ _ h)
        | none =>
            simp only [hfound] at h
            rcases h with h | rfl
            · exact .inl h
            · rw [hfound] at hmessage
              cases hmessage

mutual

/-- **What shows an error at a place becomes an error element around it**, unless the errors at the offset of the
place have one already; and if they have one afterwards, it is around the place. -/
theorem coversAny_ofView (e : ElementTypes) (hplain : x.Plain) (hdistinct : x.Distinct)
    (ha : a ≤ x.size) (hmessage : (errors.messagesAt? (x.offset a)).isSome) :
    ∀ (v : View) (s j : Nat) (spent : List Nat), Walk x s v.leaves j → s ≤ x.size →
      (x.offset a ∈ (ofView e errors spent v).2 ∨ v.Marks a s) →
        x.offset a ∈ spent ∨ CoversAny a s (ofView e errors spent v).1
  | .terminal t, s, j, spent, hwalk, hs, h => by
      rw [ofView] at h
      exact .inl (h.resolve_right id)
  | .error t, s, j, spent, hwalk, hs, h =>
      coversAny_ofErrorLeaf hdistinct ha hmessage hwalk hs h
  | .rule r children, s, j, spent, hwalk, hs, h => by
      rw [View.leaves] at hwalk
      have hinside := coversAny_ofViews e hplain hdistinct ha hmessage children s j spent hwalk hs
      have htokens := tokensOf_ofViews e errors children spent fun l => hwalk.not_conjured
      rw [ofView] at h ⊢
      cases hexception : r.exception with
      | none =>
          simp only [hexception, View.Marks, Option.isSome_none, Bool.false_eq_true, false_and,
            false_or] at h ⊢
          exact (hinside h).imp_right (coversAny_singleton _).mpr
      | some exception =>
          simp only [hexception, View.Marks, Option.isSome_some, true_and] at h ⊢
          rw [coversAny_singleton, Covers, htokens]
          rcases h with h | h | h
          · exact (hinside (.inl h)).imp_right .inr
          · exact .inr (.inl h)
          · exact (hinside (.inr h)).imp_right .inr

/-- What shows an error in several trees becomes an error element. -/
theorem coversAny_ofViews (e : ElementTypes) (hplain : x.Plain) (hdistinct : x.Distinct)
    (ha : a ≤ x.size) (hmessage : (errors.messagesAt? (x.offset a)).isSome) :
    ∀ (vs : List View) (s j : Nat) (spent : List Nat), Walk x s (View.leavesOf vs) j → s ≤ x.size →
      (x.offset a ∈ (ofViews e errors spent vs).2 ∨ View.MarksAny a s vs) →
        x.offset a ∈ spent ∨ CoversAny a s (ofViews e errors spent vs).1
  -- by recursion on the trees: where the first one ends the others begin, and spent offsets add up
  | [], s, j, spent, hwalk, hs, h => .inl (h.resolve_right id)
  | v :: rest, s, j, spent, hwalk, hs, h => by
      rw [View.leavesOf] at hwalk
      obtain ⟨i, hfirst, hrest⟩ := hwalk.split
      have hleaves : View.leavesOf [v] = v.leaves := by simp [View.leavesOf]
      have hi : i = s + (View.read [v]).length := Walk.end_eq (hleaves ▸ hfirst) hplain hs
      have htokens := tokensOf_ofView e errors v spent fun l => hfirst.not_conjured
      have hv := coversAny_ofView e hplain hdistinct ha hmessage v s i spent hfirst hs
      have hvs := coversAny_ofViews e hplain hdistinct ha hmessage rest i j
        (ofView e errors spent v).2 hrest (hfirst.le_size hs)
      rw [ofViews, View.MarksAny, ← hi] at h
      rw [ofViews, coversAny_append, htokens, ← hi]
      have hsplit : (x.offset a ∈ (ofView e errors spent v).2 ∨ v.Marks a s) ∨
          CoversAny a i (ofViews e errors (ofView e errors spent v).2 rest).1 := by
        rcases h with h | h | h
        · exact (hvs (.inl h)).imp_left .inl
        · exact .inl (.inr h)
        · exact (hvs (.inr h)).imp_left .inl
      rcases hsplit with h | h
      · exact (hv h).imp_right .inl
      · exact .inr (.inr h)

end

end Outline

/-! ## Errors and their offsets -/

namespace ErrorIndex

/-- What is found after a place has been entered under an offset. -/
theorem lookup_enter (offset place : Nat) (acc : List (Nat × List Nat)) (o : Nat) :
    (enter offset place acc).lookup o =
      if o = offset then some (place :: (acc.lookup o).getD []) else acc.lookup o := by
  -- induction on the entries; only the first one of an offset is looked up
  induction acc with
  | nil =>
      by_cases ho : o = offset
      · simp [enter, ho]
      · simp [enter, ho]
  | cons entry acc ih =>
      obtain ⟨o', places⟩ := entry
      by_cases hoffset : o' = offset
      · rw [enter, if_pos hoffset, List.lookup_cons, List.lookup_cons]
        subst hoffset
        by_cases ho : o = o'
        · simp [ho]
        · rw [beq_false_of_ne ho, if_neg ho]
      · rw [enter, if_neg hoffset, List.lookup_cons, List.lookup_cons, ih]
        by_cases ho : o = o'
        · simp [ho, hoffset]
        · rw [beq_false_of_ne ho]

/-- **Every error that has been entered is found under its offset.** -/
theorem exists_lookup_foldl {xs : List (SyntaxError × Nat)} {e : SyntaxError × Nat} (h : e ∈ xs) :
    ∃ places, (xs.foldl (fun acc e => enter e.1.offset e.2 acc) []).lookup e.1.offset =
      some places ∧ e.2 ∈ places := by
  -- induction on the errors from the last one on, which is the one that has just been entered
  induction xs using List.reverseRecOn with
  | nil => cases h
  | append_singleton xs e' ih =>
      rw [List.foldl_append, List.foldl_cons, List.foldl_nil, lookup_enter]
      by_cases hoffset : e.1.offset = e'.1.offset
      · rw [if_pos hoffset]
        refine ⟨_, rfl, ?_⟩
        rcases List.mem_append.mp h with h | h
        · obtain ⟨places, hfound, hmem⟩ := ih h
          rw [hfound]
          exact List.mem_cons_of_mem _ hmem
        · rw [List.mem_singleton.mp h]
          exact List.mem_cons_self
      · rw [if_neg hoffset]
        rcases List.mem_append.mp h with h | h
        · exact ih h
        · rw [List.mem_singleton.mp h] at hoffset
          exact absurd rfl hoffset

/-- **There are messages at the offset of every error.** -/
theorem isSome_messagesAt? {c : ErrorCollector} {e : SyntaxError} (h : e ∈ c.errors) :
    ((ofCollector c).messagesAt? e.offset).isSome := by
  obtain ⟨place, hplace, hget⟩ := Array.mem_iff_getElem.mp h
  obtain ⟨places, hfound, hmem⟩ := exists_lookup_foldl (e := (e, place))
    (List.mem_zipIdx_iff_getElem?.mpr (by simp [hplace, hget]) : (e, place) ∈ c.errors.toList.zipIdx)
  have hall : e ∈ (ofCollector c).allAt e.offset := by
    rw [allAt, ofCollector, hfound, Option.getD_some, List.mem_filterMap]
    exact ⟨place, List.mem_reverse.mpr hmem, by simp [hplace, hget]⟩
  unfold messagesAt?
  split
  · rename_i hnil
    rw [hnil] at hall
    cases hall
  · rfl

end ErrorIndex

/-- **Every collected error is that of a report.** -/
theorem ErrorCollector.exists_report {rs : List Report} {e : SyntaxError}
    (h : e ∈ (ofReports rs).errors) : ∃ r ∈ rs, e = .ofReport r := by
  unfold ofReports at h
  induction rs using List.reverseRecOn with
  | nil => exact absurd h (Array.not_mem_empty e)
  | append_singleton rs r ih =>
      have hlast : e ∈ (rs.foldl hear {}).errors ∨ e = .ofReport r := by
        rw [List.foldl_append, List.foldl_cons, List.foldl_nil, hear] at h
        split at h
        · split at h
          · exact .inl h
          · exact Array.mem_push.mp h
        · exact Array.mem_push.mp h
      rcases hlast with h | h
      · obtain ⟨r', hr', he⟩ := ih h
        exact ⟨r', List.mem_append_left _ hr', he⟩
      · exact ⟨r, List.mem_append_right _ List.mem_cons_self, h⟩

/-- The first report makes an error. -/
theorem ErrorCollector.ofReport_mem {rs : List Report} {r : Report} :
    SyntaxError.ofReport r ∈ (ofReports (r :: rs)).errors := by
  unfold ofReports
  induction rs using List.reverseRecOn with
  | nil =>
      rw [List.foldl_cons, List.foldl_nil, hear]
      cases r.exception <;> simp
  | append_singleton rs r' ih =>
      rw [← List.cons_append, List.foldl_append, List.foldl_cons, List.foldl_nil, hear]
      split
      · split
        · exact ih
        · exact Array.mem_push_of_mem _ ih
      · exact Array.mem_push_of_mem _ ih

/-! ## Error elements of a whole parse -/

/-- **Every collected error has an error element around the place where it is anchored**, if its report has
something in the tree. -/
theorem Outline.coversAny_of_settled {x : Tape} {v : View} {rs : List Report} {j : Nat}
    (hplain : x.Plain) (hdistinct : x.Distinct) (hwalk : Parser.Walk x 0 v.leaves j)
    (hsettled : Parser.Settled x 0 [v] rs) (e : ElementTypes) {err : SyntaxError}
    (herr : err ∈ (ErrorCollector.ofReports rs).errors) : ∃ a, a ≤ x.size ∧
      err.offending = x.token a ∧ CoversAny a 0 (ofView e (.ofReports rs) [] v).1 := by
  obtain ⟨r, hr, rfl⟩ := ErrorCollector.exists_report herr
  obtain ⟨a, ha, hanchor, hmarks⟩ := hsettled r hr
  have hoffending : (SyntaxError.ofReport r).offending = x.token a := hanchor
  have hmessage := ErrorIndex.isSome_messagesAt? herr
  rw [SyntaxError.offset, hoffending] at hmessage
  refine ⟨a, ha, hoffending, ?_⟩
  rcases coversAny_ofView e hplain hdistinct ha hmessage v 0 j [] hwalk (Nat.zero_le _)
    (.inr (hmarks.resolve_right id)) with h | h
  · cases h
  · exact h

end TreeProjection
