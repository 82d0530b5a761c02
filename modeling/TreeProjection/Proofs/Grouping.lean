import TreeProjection.Diagnostic.Snippets
import TreeProjection.Proofs.Labelling

/-! # Diagnostics by their lines

Diagnostics that start on one line of the source are shown together.  They are gathered by comparing neighbours only,
which finds all that belong together because the diagnostics of a tree come in the order of their starts: an error
element is listed before those inside it and before those after it, and neither begins before it does.

* `Diagnostic.lineOf_le` — what starts later starts on a later line, or on the same one.
* `Diagnostic.LineByLine` — groups of diagnostics, one for each line on which any of them starts.
* `Diagnostic.pairwise_ofTree` — the diagnostics of a finished tree are in order, and none repeats one around it.
* `Diagnostic.grouped_by_line` — they are shown line by line. -/

namespace TreeProjection

/-! ## Lines -/

/-- Bytes from a place on, put after others that are held in reverse. -/
theorem toList_loop (bytes : ByteArray) (i : Nat) (taken : List UInt8) :
    ByteArray.toList.loop bytes i taken = taken.reverse ++ bytes.data.toList.drop i := by
  induction hleft : bytes.size - i generalizing i taken with
  | zero =>
      have hend : ¬ i < bytes.size := by omega
      have hlength : bytes.data.toList.length ≤ i := Nat.le_of_not_lt hend
      rw [ByteArray.toList.loop, if_neg hend, List.drop_eq_nil_of_le hlength, List.append_nil]
  | succ left ih =>
      have hi : i < bytes.size := by omega
      have hlength : i < bytes.data.toList.length := hi
      have hbyte : bytes.get! i = bytes.data.toList[i] := getElem!_pos bytes.data i hi
      rw [ByteArray.toList.loop, if_pos hi, ih (i + 1) _ (by omega), List.drop_eq_getElem_cons hlength, hbyte,
        List.reverse_cons, List.append_assoc, List.singleton_append]

namespace Diagnostic

variable {source : ByteArray} {d e : Diagnostic} {ds : List Diagnostic}

/-- The line of an offset is the number of line feeds before it. -/
theorem lineOf_eq (source : ByteArray) (i : Nat) :
    lineOf source i = (source.data.toList.take i).countP (· == 10) := by
  rw [lineOf, ByteArray.toList, toList_loop, ByteArray.data_extract, Array.toList_extract, ← List.countP_eq_length_filter]
  simp [List.extract_eq_take_drop]

/-- **What starts later starts on a later line**, or on the same one. -/
theorem lineOf_le (source : ByteArray) {i j : Nat} (h : i ≤ j) : lineOf source i ≤ lineOf source j := by
  rw [lineOf_eq, lineOf_eq]
  exact (List.take_sublist_take_left h).countP_le

/-- The line on which a diagnostic starts. -/
def line (source : ByteArray) (d : Diagnostic) : Nat := lineOf source d.span.start

/-! ## Groups -/

/-- **A diagnostic before others** joins their first group, if that one is for its line, and otherwise is a group by
itself. -/
theorem lineGroups_cons (source : ByteArray) (d : Diagnostic) (ds : List Diagnostic) :
    (∃ e g groups, lineGroups source ds = (e :: g) :: groups ∧ d.line source = e.line source ∧
      lineGroups source (d :: ds) = (d :: e :: g) :: groups) ∨
    (∀ e g groups, lineGroups source ds = (e :: g) :: groups → d.line source ≠ e.line source) ∧
      lineGroups source (d :: ds) = [d] :: lineGroups source ds := by
  rw [lineGroups]
  cases lineGroups source ds with
  | nil => exact .inr ⟨nofun, rfl⟩
  | cons g groups =>
      cases g with
      | nil => exact .inr ⟨nofun, rfl⟩
      | cons e g =>
          by_cases hline : d.line source = e.line source
          · exact .inl ⟨e, g, groups, rfl, hline, if_pos hline⟩
          · refine .inr ⟨?_, if_neg hline⟩
            rintro _ _ _ ⟨⟩
            exact hline

/-- The groups hold the diagnostics in order. -/
theorem flatten_lineGroups (source : ByteArray) (ds : List Diagnostic) : (lineGroups source ds).flatten = ds := by
  induction ds with
  | nil => rfl
  | cons d ds ih =>
      rcases lineGroups_cons source d ds with ⟨e, g, groups, hgroups, -, hcons⟩ | ⟨-, hcons⟩
      · rw [hgroups] at ih
        rw [hcons, List.flatten_cons, List.cons_append, ← List.flatten_cons, ih]
      · rw [hcons, List.flatten_cons, ih, List.singleton_append]

/-- **Diagnostics line by line**: there is one group for each line on which any of them starts, which holds all that do,
and the groups are in the order of the lines. -/
structure LineByLine (source : ByteArray) (ds : List Diagnostic) (groups : List (List Diagnostic)) (lines : List Nat) :
    Prop where
  /-- The lines go up. -/
  ascending : lines.Pairwise (· < ·)
  /-- They are those on which diagnostics start. -/
  mem_lines : ∀ n, n ∈ lines ↔ ∃ d ∈ ds, d.line source = n
  /-- The group of a line holds all diagnostics that start on it. -/
  groups_eq : groups = lines.map fun n => ds.filter fun d => d.line source == n

namespace LineByLine

variable {groups : List (List Diagnostic)} {g : List Diagnostic} {lines : List Nat}

/-- The first group is for the first line. -/
theorem first (h : LineByLine source ds ((e :: g) :: groups) lines) : ∃ ns, lines = e.line source :: ns := by
  cases lines with
  | nil => cases h.groups_eq
  | cons n ns =>
      have hgroup : e :: g = ds.filter fun d => d.line source == n := (List.cons.inj h.groups_eq).1
      have he : e ∈ ds.filter fun d => d.line source == n := hgroup ▸ List.mem_cons_self
      exact ⟨ns, by rw [beq_iff_eq.mp (List.mem_filter.mp he).2]⟩

/-- No group is empty. -/
theorem ne_nil (h : LineByLine source ds groups lines) : ∀ g ∈ groups, g ≠ [] := by
  intro g hg hnil
  rw [h.groups_eq, List.mem_map] at hg
  obtain ⟨n, hn, rfl⟩ := hg
  obtain ⟨d, hd, hline⟩ := (h.mem_lines n).mp hn
  exact List.filter_eq_nil_iff.mp hnil d hd (beq_iff_eq.mpr hline)

/-- Where there is a first line, there is a first group. -/
theorem exists_first {n : Nat} (h : LineByLine source ds groups (n :: lines)) :
    ∃ e g rest, groups = (e :: g) :: rest ∧ e.line source = n := by
  cases groups with
  | nil => cases h.groups_eq
  | cons g rest =>
      cases g with
      | nil => exact absurd rfl (h.ne_nil [] List.mem_cons_self)
      | cons e g =>
          obtain ⟨ns, hlines⟩ := h.first
          exact ⟨e, g, rest, rfl, (List.cons.inj hlines).1.symm⟩

/-- On the line of another diagnostic, one more diagnostic makes no difference to the groups of the other lines. -/
theorem filter_cons_of_ne {n : Nat} (hn : d.line source ≠ n) :
    (d :: ds).filter (fun d => d.line source == n) = ds.filter fun d => d.line source == n :=
  List.filter_cons_of_neg (by simpa using hn)

/-- A diagnostic joins the first group. -/
theorem join (h : LineByLine source ds ((e :: g) :: groups) lines) (hline : d.line source = e.line source) :
    LineByLine source (d :: ds) ((d :: e :: g) :: groups) lines := by
  obtain ⟨ns, rfl⟩ := h.first
  obtain ⟨hgroup, hgroups⟩ := List.cons.inj h.groups_eq
  refine ⟨h.ascending, fun n => ?_, ?_⟩
  · simp only [h.mem_lines, List.mem_cons, exists_eq_or_imp]
    refine ⟨.inr, ?_⟩
    rintro (rfl | hn)
    · exact (h.mem_lines _).mp (hline ▸ List.mem_cons_self)
    · exact hn
  · rw [List.map_cons, List.filter_cons_of_pos (by simpa using hline), hgroups]
    refine congrArg₂ _ (congrArg _ hgroup) (List.map_congr_left fun n hn => ?_)
    have hlt : e.line source < n := (List.pairwise_cons.mp h.ascending).1 n hn
    exact (filter_cons_of_ne (by omega)).symm

/-- A diagnostic that starts on an earlier line than all others is a group by itself. -/
theorem apart (h : LineByLine source ds groups lines) (hline : ∀ n ∈ lines, d.line source < n) :
    LineByLine source (d :: ds) ([d] :: groups) (d.line source :: lines) := by
  refine ⟨List.pairwise_cons.mpr ⟨hline, h.ascending⟩, fun n => ?_, ?_⟩
  · simp only [h.mem_lines, List.mem_cons, exists_eq_or_imp, eq_comm (a := n)]
  · have hnone : ds.filter (fun e => e.line source == d.line source) = [] := by
      refine List.filter_eq_nil_iff.mpr fun e he hsame => ?_
      have hlt := hline _ ((h.mem_lines _).mpr ⟨e, he, rfl⟩)
      rw [beq_iff_eq.mp hsame] at hlt
      exact Nat.lt_irrefl _ hlt
    rw [List.map_cons, List.filter_cons_of_pos (by simp), hnone, h.groups_eq]
    refine congrArg _ (List.map_congr_left fun n hn => ?_)
    exact (filter_cons_of_ne (Nat.ne_of_lt (hline n hn))).symm

end LineByLine

/-- **Diagnostics in the order of their lines are gathered line by line.** -/
theorem exists_lineByLine (hsorted : ds.Pairwise fun d e => d.line source ≤ e.line source) :
    ∃ lines, LineByLine source ds (lineGroups source ds) lines := by
  induction ds with
  | nil => exact ⟨[], .nil, by simp, rfl⟩
  | cons d ds ih =>
      obtain ⟨hfirst, hrest⟩ := List.pairwise_cons.mp hsorted
      obtain ⟨lines, hlines⟩ := ih hrest
      rcases lineGroups_cons source d ds with ⟨e, g, groups, hgroups, hline, hcons⟩ | ⟨hne, hcons⟩
      · rw [hgroups] at hlines
        exact ⟨lines, hcons ▸ hlines.join hline⟩
      · refine ⟨d.line source :: lines, hcons ▸ hlines.apart fun n hn => ?_⟩
        -- the first of the other lines is not that of the diagnostic, and the rest come after it
        cases lines with
        | nil => cases hn
        | cons n₀ ns =>
            obtain ⟨e, g, rest, hgroups, rfl⟩ := hlines.exists_first
            obtain ⟨e', he', hline'⟩ := (hlines.mem_lines _).mp List.mem_cons_self
            have hle : d.line source ≤ e.line source := hline' ▸ hfirst e' he'
            have hlt := Nat.lt_of_le_of_ne hle (hne e g rest hgroups)
            rcases List.mem_cons.mp hn with rfl | hn
            · exact hlt
            · exact Nat.lt_trans hlt ((List.pairwise_cons.mp hlines.ascending).1 n hn)

/-- A snippet of diagnostics has the first one's message for its title. -/
theorem map_title_snippets (source : String) (path : Option String) (ds : List Diagnostic) :
    (snippets source path ds).map Snippet.title =
      (lineGroups source.toUTF8 ds).filterMap fun g => g.head?.map Diagnostic.message := by
  rw [snippets, List.map_filterMap]
  refine List.filterMap_congr fun g _ => ?_
  cases g <;> rfl

end Diagnostic

/-! ## The order of diagnostics -/

/-- Of two error elements, the second does not begin before the first. -/
theorem ErrorNode.Apart.start_le {a a' : ErrorNode} (h : a.Apart a') : a.span.start ≤ a'.span.start := by
  obtain ⟨-, hcovers⟩ | ⟨-, hstop⟩ := h.2
  · simp only [Span.covers, Bool.and_eq_true, decide_eq_true_eq] at hcovers
    exact hcovers.1
  · exact Nat.le_trans a.span.start_le_stop hstop

namespace HostTree

variable {b : GreenBuilder} {t : HostTree}

/-- **The error elements of a finished tree** are in the order of their starts. -/
theorem pairwise_errors (h : b.finish = .ok t) : t.errors.Pairwise fun e e' => e.span.start ≤ e'.span.start := by
  obtain ⟨messages, hmessages⟩ := GreenBuilder.finish_errors h
  have hspans : (t.green.errorSpans 0).Pairwise fun s s' => s.start ≤ s'.start := by
    rw [← GreenTree.map_span_errorNodes, List.pairwise_map]
    exact (GreenTree.errorNodes_apart 0 t.green).imp ErrorNode.Apart.start_le
  rw [hmessages, List.pairwise_map, List.pairwise_iff_getElem]
  intro i j hi hj hij
  rw [List.getElem_zip, List.getElem_zip]
  exact List.pairwise_iff_getElem.mp hspans i j _ _ hij

/-- The lines of their messages are in that order as well. -/
theorem pairwise_start_messageLines (h : b.finish = .ok t) :
    t.messageLines.Pairwise fun l l' => l.span.start ≤ l'.span.start := by
  have herrors : t.errors.zipIdx.Pairwise fun e e' => e.1.span.start ≤ e'.1.span.start := by
    rw [← List.pairwise_map (f := Prod.fst) (R := fun e e' : ErrorElement => e.span.start ≤ e'.span.start), List.zipIdx_map_fst]
    exact pairwise_errors h
  refine List.pairwise_flatMap.mpr ⟨fun ⟨e, i⟩ _ => ?_, herrors.imp fun {a b} hab => ?_⟩
  · exact List.pairwise_map.mpr (List.pairwise_of_forall fun _ _ => Nat.le_refl _)
  · intro l hl l' hl'
    obtain ⟨-, -, rfl⟩ := List.mem_map.mp hl
    obtain ⟨-, -, rfl⟩ := List.mem_map.mp hl'
    exact hab

end HostTree

/-- No first line repeats another one before it. -/
theorem MessageLine.pairwise_firsts {ls : List MessageLine} (h : ls.Pairwise Before) :
    (firsts ls).Pairwise fun l l' => ¬ l'.Repeats l := by
  refine (h.filter _).imp_of_mem fun {l l'} hl hl' hbefore hrepeats => ?_
  have hfirst := (List.mem_filter.mp hl').2
  rw [decide_eq_true_eq] at hfirst
  exact hfirst ⟨l, (List.mem_filter.mp hl).1, hbefore, hrepeats⟩

namespace Diagnostic

variable {b : GreenBuilder} {t : HostTree}

/-- **The diagnostics of a finished tree** are in the order of their starts, and none repeats an earlier one around it. -/
theorem pairwise_ofTree (h : b.finish = .ok t) : (ofTree t).Pairwise fun d e =>
    d.span.start ≤ e.span.start ∧ ¬ (e.message = d.message ∧ d.span.covers e.span = true) := by
  have hstart : (MessageLine.firsts t.messageLines).Pairwise fun l l' => l.span.start ≤ l'.span.start :=
    (HostTree.pairwise_start_messageLines h).filter _
  rw [ofTree_eq_firsts, List.pairwise_map]
  refine (hstart.and (MessageLine.pairwise_firsts t.pairwise_messageLines)).imp fun {l l'} hl => ⟨hl.1, fun hrepeats => ?_⟩
  exact hl.2 ⟨hrepeats.1.symm, hrepeats.2⟩

/-- **The diagnostics of a finished tree are shown line by line.** They are in the order of their starts, and none repeats
the message of an earlier one whose stretch is around its own.  So, whatever the source, the groups put together are all
of them, there is one group for each line on which a diagnostic starts, and it holds all that start there.  For each of
these lines there is one snippet, which has the message of the first of them for its title. -/
theorem grouped_by_line (h : b.finish = .ok t) (source : String) (path : Option String) :
    let ds := ofTree t
    let groups := lineGroups source.toUTF8 ds
    ds.Pairwise (fun d e =>
        d.span.start ≤ e.span.start ∧ ¬ (e.message = d.message ∧ d.span.covers e.span = true)) ∧
      groups.flatten = ds ∧
      ∃ lines, LineByLine source.toUTF8 ds groups lines ∧ (snippets source path ds).length = lines.length ∧
        (snippets source path ds).map Snippet.title =
          lines.filterMap fun n => (ds.find? fun d => d.line source.toUTF8 == n).map Diagnostic.message := by
  intro ds groups
  have hordered := pairwise_ofTree h
  have hsorted : ds.Pairwise fun d e => d.line source.toUTF8 ≤ e.line source.toUTF8 :=
    hordered.imp fun hde => lineOf_le source.toUTF8 hde.1
  obtain ⟨lines, hlines⟩ := exists_lineByLine hsorted
  have htitles : (snippets source path ds).map Snippet.title =
      lines.filterMap fun n => (ds.find? fun d => d.line source.toUTF8 == n).map Diagnostic.message := by
    rw [map_title_snippets, hlines.groups_eq, List.filterMap_map]
    refine List.filterMap_congr fun n _ => ?_
    rw [Function.comp_apply, List.head?_filter]
  refine ⟨hordered, flatten_lineGroups _ ds, lines, hlines, ?_, htitles⟩
  rw [← List.length_map Snippet.title, htitles, List.filterMap_length_eq_length]
  intro n hn
  obtain ⟨d, hd, hline⟩ := (hlines.mem_lines n).mp hn
  rw [Option.isSome_map, List.find?_isSome]
  exact ⟨d, hd, beq_iff_eq.mpr hline⟩

/-- Error elements over two lines: two on the first, and on the second two around each other with one message. -/
theorem grouped_by_line_call : ∃ (b : GreenBuilder) (t : HostTree), b.finish = .ok t ∧
    ofTree t = [⟨⟨0, 1⟩, "left"⟩, ⟨⟨2, 1⟩, "middle"⟩, ⟨⟨4, 1⟩, "right"⟩] ∧
    lineGroups "x =\n1 ;".toUTF8 (ofTree t) = [[⟨⟨0, 1⟩, "left"⟩, ⟨⟨2, 1⟩, "middle"⟩], [⟨⟨4, 1⟩, "right"⟩]] ∧
    ∃ lines, LineByLine "x =\n1 ;".toUTF8 (ofTree t) (lineGroups "x =\n1 ;".toUTF8 (ofTree t)) lines ∧
      (snippets "x =\n1 ;" none (ofTree t)).length = lines.length := by
  have hrun : ∃ b, BuilderCall.runAll (GreenBuilder.ofText (Sample.cut "x =\n1 ;") Sample.language)
      [.mark, .mark, .advance, .error 1 "left", .mark, .advance, .error 4 "middle", .mark, .mark, .advance,
        .error 8 "right", .error 7 "right", .done 0 .file] = .ok b ∧ ∃ t, b.finish = .ok t ∧
      ofTree t = [⟨⟨0, 1⟩, "left"⟩, ⟨⟨2, 1⟩, "middle"⟩, ⟨⟨4, 1⟩, "right"⟩] := by decide +kernel
  obtain ⟨b, -, t, hfinish, ht⟩ := hrun
  obtain ⟨-, -, lines, hlines, hlength, -⟩ := grouped_by_line hfinish "x =\n1 ;" none
  refine ⟨b, t, hfinish, ht, ?_, lines, hlines, hlength⟩
  have hfirst : lineOf "x =\n1 ;".toUTF8 0 = 0 := (lineOf_eq _ _).trans (by decide +kernel)
  have hsame : lineOf "x =\n1 ;".toUTF8 2 = 0 := (lineOf_eq _ _).trans (by decide +kernel)
  have hnext : lineOf "x =\n1 ;".toUTF8 4 = 1 := (lineOf_eq _ _).trans (by decide +kernel)
  generalize "x =\n1 ;".toUTF8 = source at hfirst hsame hnext
  simp [ht, lineGroups, hfirst, hsame, hnext]

end Diagnostic

end TreeProjection
