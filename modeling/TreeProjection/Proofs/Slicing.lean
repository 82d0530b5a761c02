import Mathlib.Data.String.Basic
import TreeProjection.Text.Span

/-! # Stretches of a text

A stretch of a text holds whole characters if it starts and stops at boundaries.  Stretches tile a text if each starts
where the one before it stops; then their texts, put together, are the text.

* `Text.Boundary` — where characters begin, and where a text ends.
* `Tiles` — stretches without gaps or overlaps between two offsets.
* `Tiles.join_slices` — the texts of the stretches that tile a text. -/

namespace TreeProjection

/-! ## Boundaries of characters -/

namespace Text

variable {source before after : String} {i : Nat}

/-- **A boundary of a text** is an offset where a character begins, or the offset where the text ends. -/
def Boundary (source : String) (i : Nat) : Prop := (⟨i⟩ : String.Pos.Raw).IsValid source

instance : Decidable (Boundary source i) := decidable_of_iff _ String.Pos.Raw.isValid_eq_true_iff

/-- A boundary divides a text in two. -/
theorem boundary_iff_exists_append :
    Boundary source i ↔ ∃ before after, source = before ++ after ∧ i = before.utf8ByteSize := by
  simp [Boundary, String.Pos.Raw.isValid_iff_exists_append, String.Pos.Raw.ext_iff]

theorem boundary_utf8ByteSize (source : String) : Boundary source source.utf8ByteSize :=
  String.Pos.Raw.isValid_rawEndPos

/-- A boundary does not lie past the end. -/
theorem Boundary.le (h : Boundary source i) : i ≤ source.utf8ByteSize :=
  String.Pos.Raw.IsValid.le_rawEndPos h

/-- The boundaries of a text are those of its first part, and those of its second part moved on. -/
theorem boundary_append : Boundary (before ++ after) i ↔
    Boundary before i ∨ before.utf8ByteSize ≤ i ∧ Boundary after (i - before.utf8ByteSize) :=
  String.Pos.Raw.isValid_append

/-- **A boundary in the second part** of a text divides that part. -/
theorem Boundary.exists_append (h : Boundary (before ++ after) i) (hle : before.utf8ByteSize ≤ i) :
    ∃ text rest, after = text ++ rest ∧ i = before.utf8ByteSize + text.utf8ByteSize := by
  rcases boundary_append.mp h with hbefore | ⟨-, hafter⟩
  · have hend := hbefore.le
    exact ⟨"", after, String.empty_append.symm, by simp; omega⟩
  · obtain ⟨text, rest, hrest, hi⟩ := boundary_iff_exists_append.mp hafter
    exact ⟨text, rest, hrest, by omega⟩

end Text

/-! ## Texts of stretches -/

namespace Span

open Text

variable {source : String} {s : Span}

/-- The span between two offsets stops at the second, if they are the right way round. -/
theorem stop_between {start stop : Nat} (h : start ≤ stop) : (between start stop).stop = stop :=
  Nat.add_sub_cancel' h

/-- What stands between two other texts. -/
theorem slice_append (before text after : String) :
    (⟨before.utf8ByteSize, text.utf8ByteSize⟩ : Span).slice (before ++ text ++ after) = text := by
  obtain ⟨l, rfl⟩ := before.exists_eq_ofList
  obtain ⟨m, rfl⟩ := text.exists_eq_ofList
  obtain ⟨r, rfl⟩ := after.exists_eq_ofList
  rw [slice, stop, ← String.ofList_append, ← String.ofList_append, String.utf8ByteSize_ofList,
    String.utf8ByteSize_ofList]
  exact String.extract_of_valid l m r

/-- **A stretch between boundaries** has a text that stands there in the source. -/
theorem exists_slice (hstart : Boundary source s.start) (hstop : Boundary source s.stop) :
    ∃ before after, source = before ++ s.slice source ++ after ∧ s.start = before.utf8ByteSize ∧
      s.length = (s.slice source).utf8ByteSize := by
  obtain ⟨before, rest, hsource, hbefore⟩ := boundary_iff_exists_append.mp hstart
  obtain ⟨text, after, hrest, htext⟩ := (hsource ▸ hstop).exists_append (hbefore ▸ s.start_le_stop)
  have hlength : s.length = text.utf8ByteSize := by
    rw [stop] at htext
    omega
  have hslice : s.slice source = text := by
    have hspan : s = ⟨before.utf8ByteSize, text.utf8ByteSize⟩ := by rw [← hbefore, ← hlength]
    rw [hspan, hsource, hrest, ← String.append_assoc, slice_append]
  exact ⟨before, after, by rw [hslice, hsource, hrest, String.append_assoc], hbefore, by rw [hslice, hlength]⟩

end Span

/-! ## Stretches that tile -/

/-- **Stretches that tile**: the first starts at one offset, the last stops at another, each has bytes, and each starts
where the one before it stops. -/
def Tiles (start stop : Nat) : List Span → Prop
  | [] => start = stop
  | s :: rest => s.start = start ∧ 0 < s.length ∧ Tiles s.stop stop rest

namespace Tiles

open Text

variable {source before after : String} {start stop : Nat} {s : Span} {ss ts : List Span}

/-- Whether stretches tile can be told. -/
instance decidable (start stop : Nat) : (ss : List Span) → Decidable (Tiles start stop ss)
  | [] => inferInstanceAs (Decidable (start = stop))
  | s :: ss =>
    have := decidable s.stop stop ss
    inferInstanceAs (Decidable (s.start = start ∧ 0 < s.length ∧ Tiles s.stop stop ss))

/-- A stretch with bytes tiles itself. -/
theorem singleton (h : 0 < s.length) : Tiles s.start s.stop [s] := ⟨rfl, h, rfl⟩

/-- Tiles one after the other meet somewhere. -/
theorem append_iff : Tiles start stop (ss ++ ts) ↔ ∃ mid, Tiles start mid ss ∧ Tiles mid stop ts := by
  induction ss generalizing start with
  | nil => simp [Tiles]
  | cons s ss ih => simp [Tiles, ih, and_assoc]

/-- Tiles go forward. -/
theorem le (h : Tiles start stop ss) : start ≤ stop := by
  induction ss generalizing start with
  | nil => exact Nat.le_of_eq h
  | cons s ss ih =>
      obtain ⟨rfl, -, hrest⟩ := h
      exact Nat.le_trans s.start_le_stop (ih hrest)

/-- Any tiles at all cover something. -/
theorem lt (h : Tiles start stop ss) (hss : ss ≠ []) : start < stop := by
  cases ss with
  | nil => exact absurd rfl hss
  | cons s ss =>
      obtain ⟨rfl, hlength, hrest⟩ := h
      have hle := hrest.le
      rw [Span.stop] at hle
      omega

/-- Tiles have bytes. -/
theorem length_pos (h : Tiles start stop ss) (hs : s ∈ ss) : 0 < s.length := by
  induction ss generalizing start with
  | nil => cases hs
  | cons t ss ih =>
      obtain ⟨-, hlength, hrest⟩ := h
      rcases List.mem_cons.mp hs with rfl | hs
      · exact hlength
      · exact ih hrest hs

/-- Where tiles start and stop is settled by them, if there are any. -/
theorem eq {start' stop' : Nat} (h : Tiles start stop ss) (h' : Tiles start' stop' ss) (hss : ss ≠ []) :
    start = start' ∧ stop = stop' := by
  induction ss generalizing start start' with
  | nil => exact absurd rfl hss
  | cons s ss ih =>
      obtain ⟨hstart, -, hrest⟩ := h
      obtain ⟨hstart', -, hrest'⟩ := h'
      refine ⟨hstart.symm.trans hstart', ?_⟩
      cases ss with
      | nil => exact hrest.symm.trans hrest'
      | cons t ss => exact (ih hrest hrest' (List.cons_ne_nil _ _)).2

/-- Where all tiles start at boundaries and the last one stops at one, all stop at boundaries. -/
theorem boundary_stop (h : Tiles start stop ss) (hstop : Boundary source stop)
    (hstarts : ∀ s ∈ ss, Boundary source s.start) : ∀ s ∈ ss, Boundary source s.stop := by
  induction ss generalizing start with
  | nil => exact List.forall_mem_nil _
  | cons s ss ih =>
      obtain ⟨-, -, hrest⟩ := h
      have hlater := ih hrest (List.forall_mem_cons.mp hstarts).2
      refine List.forall_mem_cons.mpr ⟨?_, hlater⟩
      cases ss with
      | nil => exact hrest ▸ hstop
      | cons t ss =>
          rw [← hrest.1]
          exact hstarts t (List.mem_cons_of_mem _ List.mem_cons_self)

/-- The texts of the stretches that tile the second part of a text are that part. -/
theorem join_slices_append (h : Tiles before.utf8ByteSize (before ++ after).utf8ByteSize ss)
    (hstarts : ∀ s ∈ ss, Boundary (before ++ after) s.start) :
    String.join (ss.map (Span.slice · (before ++ after))) = after := by
  induction ss generalizing before after with
  | nil =>
      have hempty : after.utf8ByteSize = 0 := by
        have hsize : before.utf8ByteSize = (before ++ after).utf8ByteSize := h
        rw [String.utf8ByteSize_append] at hsize
        omega
      rw [List.map_nil, String.join_nil, String.utf8ByteSize_eq_zero_iff.mp hempty]
  | cons s ss ih =>
      have hstop := h.boundary_stop (boundary_utf8ByteSize _) hstarts s List.mem_cons_self
      obtain ⟨hstart, -, hrest⟩ := h
      have hle : before.utf8ByteSize ≤ s.stop := hstart ▸ s.start_le_stop
      obtain ⟨text, rest, rfl, htext⟩ := hstop.exists_append hle
      have hspan : s = ⟨before.utf8ByteSize, text.utf8ByteSize⟩ := by
        obtain ⟨i, n⟩ := s
        simp only [Span.stop] at hstart htext
        simp only [Span.mk.injEq]
        omega
      have hslice : s.slice (before ++ (text ++ rest)) = text := by
        rw [hspan, ← String.append_assoc, Span.slice_append]
      -- what has been read so far is the first part now
      rw [htext, ← String.utf8ByteSize_append, ← String.append_assoc] at hrest
      rw [← String.append_assoc] at hstarts
      have hjoin := ih hrest (List.forall_mem_cons.mp hstarts).2
      rw [String.append_assoc] at hjoin
      rw [List.map_cons, String.join_cons, hslice, hjoin]

/-- **The texts of the stretches that tile a text**, put together, are the text. -/
theorem join_slices (h : Tiles 0 source.utf8ByteSize ss) (hstarts : ∀ s ∈ ss, Boundary source s.start) :
    String.join (ss.map (Span.slice · source)) = source := by
  have hsource : "" ++ source = source := String.empty_append
  have hall : String.join (ss.map (Span.slice · ("" ++ source))) = source :=
    join_slices_append (hsource.symm ▸ h) (hsource.symm ▸ hstarts)
  rwa [hsource] at hall

end Tiles

end TreeProjection
