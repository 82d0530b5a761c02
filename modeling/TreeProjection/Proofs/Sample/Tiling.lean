import Mathlib.Data.List.Chain
import TreeProjection.Proofs.Slicing
import TreeProjection.Sample.Lexer

/-! # The tokens of a sample source tile it

A scan comes upon one stretch of the source after the other, some of them tokens and some of them text where no token
begins.  The tokens are gathered from that in one pass, which puts off skipped text until the next other token or the
end of the source.  Whatever scan it is, as long as its stretches tile the source, so do the tokens, and there is
exactly one garbage token for each run of skipped texts.

* `Sample.Scanned` — what a scan of a source may come upon; `Sample.scanned_scan`: the scan of the language does.
* `Sample.Gathers` — findings and the tokens that are gathered from them, run by run.
* `Sample.Tiling` — tokens that tile a source, and what is garbage among them.
* `Sample.lex_tiles` — the tokens of every source do. -/

namespace TreeProjection

open Text

namespace Sample

variable {source : String} {f : Finding} {fs run : List Finding} {t : RangedToken} {ts : List RangedToken}

/-! ## What a scan comes upon -/

/-- **What a scan of a source may come upon**: stretches that tile the source, start where characters do, and are of
types that the language knows. -/
structure Scanned (source : String) (fs : List Finding) : Prop where
  /-- The stretches tile the source. -/
  tiles : Tiles 0 source.utf8ByteSize (fs.map Finding.span)
  /-- They start at boundaries of characters. -/
  boundaries : ∀ f ∈ fs, Boundary source f.span.start
  /-- Their types have kinds of their own. -/
  kinds : ∀ f ∈ fs, ∀ ty ∈ f.ty?, kindOf ty ≠ .error

/-- Names are of a type that the language knows. -/
theorem kindOf_nameType (name : List Char) : kindOf (nameType name) ≠ .error := by
  unfold nameType
  split
  · decide
  · split
    · decide
    · split <;> decide

/-- So are the tokens of one character. -/
theorem kindOf_punctuation {c : Char} : ∀ ty ∈ punctuation? c, kindOf ty ≠ .error := by
  intro ty hty
  unfold punctuation? at hty
  split at hty <;> cases hty <;> decide

/-- **Whatever begins with a character** is of a type that the language knows, or is skipped. -/
theorem kindOf_measure {c : Char} {rest : List Char} : ∀ ty ∈ (measure c rest).2, kindOf ty ≠ .error := by
  intro ty hty
  rw [measure] at hty
  split at hty
  · exact Option.some.inj hty ▸ kindOf_nameType _
  split at hty
  · cases hty
    decide
  split at hty
  · cases hty
    decide
  split at hty
  · cases hclosed : (stringTail rest).2 with
    | true =>
        simp only [hclosed, if_true] at hty
        cases hty
        decide
    | false => simp [hclosed] at hty
  split at hty
  · cases hty
    decide
  · exact kindOf_punctuation ty hty

/-- Every piece has characters, and is of a type that the language knows or is skipped. -/
theorem forall_mem_pieces (cs : List Char) :
    ∀ p ∈ pieces cs, p.chars ≠ [] ∧ ∀ ty ∈ p.ty?, kindOf ty ≠ .error := by
  fun_induction pieces cs with
  | case1 => exact List.forall_mem_nil _
  | case2 c rest n ty? hmeasure ih =>
      have hkinds : ∀ ty ∈ (measure c rest).2, kindOf ty ≠ .error := kindOf_measure
      rw [hmeasure] at hkinds
      exact List.forall_mem_cons.mpr ⟨⟨List.cons_ne_nil _ _, hkinds⟩, ih⟩

/-- Pieces side by side tile what they cover. -/
theorem tiles_findingsFrom {ps : List Piece} (hps : ∀ p ∈ ps, p.chars ≠ []) (start : Nat) :
    Tiles start (start + (String.ofList (ps.flatMap Piece.chars)).utf8ByteSize)
      ((findingsFrom start ps).map Finding.span) := by
  induction ps generalizing start with
  | nil => rfl
  | cons p ps ih =>
      obtain ⟨hp, hrest⟩ := List.forall_mem_cons.mp hps
      have hlength : 0 < (String.ofList p.chars).utf8ByteSize := by
        refine Nat.pos_of_ne_zero fun hzero => hp ?_
        simpa using congrArg String.toList (String.utf8ByteSize_eq_zero_iff.mp hzero)
      refine ⟨rfl, hlength, ?_⟩
      rw [List.flatMap_cons, String.ofList_append, String.utf8ByteSize_append, ← Nat.add_assoc]
      exact ih hrest _

/-- Pieces side by side start where characters do. -/
theorem boundary_findingsFrom (before : String) (ps : List Piece) :
    ∀ f ∈ findingsFrom before.utf8ByteSize ps,
      Boundary (before ++ String.ofList (ps.flatMap Piece.chars)) f.span.start := by
  induction ps generalizing before with
  | nil => exact List.forall_mem_nil _
  | cons p ps ih =>
      refine List.forall_mem_cons.mpr ⟨boundary_append.mpr (.inl (boundary_utf8ByteSize before)), ?_⟩
      have hrest := ih (before ++ String.ofList p.chars)
      rw [String.utf8ByteSize_append, String.append_assoc, ← String.ofList_append, ← List.flatMap_cons] at hrest
      exact hrest

/-- The type of a finding is that of its piece. -/
theorem exists_piece_of_mem {start : Nat} {ps : List Piece} (hf : f ∈ findingsFrom start ps) :
    ∃ p ∈ ps, f.ty? = p.ty? := by
  induction ps generalizing start with
  | nil => cases hf
  | cons p ps ih =>
      rcases List.mem_cons.mp hf with rfl | hf
      · exact ⟨p, List.mem_cons_self, rfl⟩
      · obtain ⟨q, hq, hty⟩ := ih hf
        exact ⟨q, List.mem_cons_of_mem _ hq, hty⟩

/-- **The scan of the language** comes upon stretches that tile the source. -/
theorem scanned_scan (source : String) : Scanned source (scan source) := by
  have hsource : String.ofList ((pieces source.toList).flatMap Piece.chars) = source := by
    rw [flatMap_chars_pieces, String.ofList_toList]
  refine ⟨?_, ?_, fun f hf => ?_⟩
  · have htiles := tiles_findingsFrom (fun p hp => (forall_mem_pieces source.toList p hp).1) 0
    rwa [hsource, Nat.zero_add] at htiles
  · have hboundary := boundary_findingsFrom "" (pieces source.toList)
    rwa [hsource, String.empty_append] at hboundary
  · obtain ⟨p, hp, hty⟩ := exists_piece_of_mem hf
    rw [hty]
    exact (forall_mem_pieces _ p hp).2

/-! ## Run by run -/

/-- **Findings and the tokens gathered from them**: a token is taken over, and skipped texts that stand together, with
none after them, make one garbage token that covers them. -/
inductive Gathers : List Finding → List RangedToken → Prop
  | nil : Gathers [] []
  | found {ty : TokenType} {span : Span} {fs : List Finding} {ts : List RangedToken} (rest : Gathers fs ts) :
    Gathers (⟨some ty, span⟩ :: fs) (⟨kindOf ty, span⟩ :: ts)
  | skipped {start stop : Nat} {run fs : List Finding} {ts : List RangedToken} (nonempty : run ≠ [])
    (skipped : ∀ f ∈ run, f.ty? = none) (covered : Tiles start stop (run.map Finding.span))
    (last : ∀ f ∈ fs.head?, f.ty? ≠ none) (rest : Gathers fs ts) :
    Gathers (run ++ fs) (⟨.error, .between start stop⟩ :: ts)

/-- **Tokens are gathered run by run**, both where no text is held back and where a run of skipped texts is. -/
theorem gathers_gather {offset size : Nat} (h : Tiles offset size (fs.map Finding.span)) :
    Gathers fs (gather size none fs) ∧
      ∀ start run, run ≠ [] → (∀ f ∈ run, f.ty? = none) → Tiles start offset (run.map Finding.span) →
        Gathers (run ++ fs) (gather size (some start) fs) := by
  induction fs generalizing offset with
  | nil =>
      obtain rfl : offset = size := h
      exact ⟨.nil, fun start run hrun hskipped hcovered => .skipped hrun hskipped hcovered (by simp) .nil⟩
  | cons f fs ih =>
      obtain ⟨ty?, span⟩ := f
      obtain ⟨rfl, hlength, hrest⟩ := h
      have hone : Tiles span.start span.stop [span] := .singleton hlength
      have ⟨hnone, hsome⟩ := ih hrest
      cases ty? with
      | none =>
          -- the text joins what is held back
          constructor
          · exact hsome span.start [⟨none, span⟩] (List.cons_ne_nil _ _) (by simp) hone
          · intro start run hrun hskipped hcovered
            have hjoined : Tiles start span.stop ((run ++ [Finding.mk none span]).map Finding.span) := by
              rw [List.map_append, Tiles.append_iff]
              exact ⟨_, hcovered, hone⟩
            have hall := hsome start (run ++ [⟨none, span⟩]) (by simp)
              (List.forall_mem_append.mpr ⟨hskipped, by simp⟩) hjoined
            rwa [List.append_assoc, List.singleton_append] at hall
      | some ty =>
          exact ⟨.found hnone, fun start run hrun hskipped hcovered =>
            .skipped hrun hskipped hcovered (by simp) (.found hnone)⟩

namespace Gathers

/-- The tokens tile what the findings tile. -/
theorem tiles (h : Gathers fs ts) {start stop : Nat} (hfs : Tiles start stop (fs.map Finding.span)) :
    Tiles start stop (ts.map RangedToken.span) := by
  induction h generalizing start with
  | nil => exact hfs
  | found _ ih => exact ⟨hfs.1, hfs.2.1, ih hfs.2.2⟩
  | @skipped start' stop' run fs ts hrun _ hcovered _ _ ih =>
      rw [List.map_append, Tiles.append_iff] at hfs
      obtain ⟨mid, hfirst, hrest⟩ := hfs
      have hne : run.map Finding.span ≠ [] := by simpa using hrun
      obtain ⟨rfl, rfl⟩ := hfirst.eq hcovered hne
      have hlt := hfirst.lt hne
      have hlater := ih hrest
      rw [← Span.stop_between hlt.le] at hlater
      exact ⟨rfl, Nat.sub_pos_of_lt hlt, hlater⟩

/-- The tokens start where findings do. -/
theorem boundaries (h : Gathers fs ts) (hfs : ∀ f ∈ fs, Boundary source f.span.start) :
    ∀ t ∈ ts, Boundary source t.span.start := by
  induction h with
  | nil => exact List.forall_mem_nil _
  | found _ ih =>
      obtain ⟨hfirst, hrest⟩ := List.forall_mem_cons.mp hfs
      exact List.forall_mem_cons.mpr ⟨hfirst, ih hrest⟩
  | @skipped start stop run fs ts hrun _ hcovered _ _ ih =>
      refine List.forall_mem_cons.mpr ⟨?_, ih (List.forall_mem_append.mp hfs).2⟩
      cases run with
      | nil => exact absurd rfl hrun
      | cons f run =>
          have hstart : f.span.start = start := hcovered.1
          exact hstart ▸ hfs f (List.mem_append_left _ List.mem_cons_self)

/-- If garbage comes first, skipped text does. -/
theorem head (h : Gathers fs ts) (hkinds : ∀ f ∈ fs, ∀ ty ∈ f.ty?, kindOf ty ≠ .error) (ht : t ∈ ts.head?)
    (hkind : t.kind = .error) : ∃ f ∈ fs.head?, f.ty? = none := by
  cases h with
  | nil => cases ht
  | found rest =>
      cases Option.some.inj ht
      exact absurd hkind (hkinds _ List.mem_cons_self _ rfl)
  | @skipped start stop run fs ts hrun hskipped _ _ _ =>
      cases run with
      | nil => exact absurd rfl hrun
      | cons f run => exact ⟨f, rfl, hskipped f List.mem_cons_self⟩

/-- **No two garbage tokens stand side by side.** -/
theorem apart (h : Gathers fs ts) (hkinds : ∀ f ∈ fs, ∀ ty ∈ f.ty?, kindOf ty ≠ .error) :
    ts.IsChain fun t t' => ¬ (t.kind = .error ∧ t'.kind = .error) := by
  induction h with
  | nil => exact .nil
  | found rest ih =>
      obtain ⟨hfirst, hrest⟩ := List.forall_mem_cons.mp hkinds
      exact List.isChain_cons.mpr ⟨fun t _ ht => hfirst _ rfl ht.1, ih hrest⟩
  | skipped _ _ _ hlast rest ih =>
      have hrest := (List.forall_mem_append.mp hkinds).2
      refine List.isChain_cons.mpr ⟨fun t ht hboth => ?_, ih hrest⟩
      obtain ⟨f, hf, hnone⟩ := rest.head hrest ht hboth.2
      exact hlast f hf hnone

end Gathers

/-- **A whole run**: skipped texts that stand together among findings, with no skipped text before or after them, and
that tile a stretch. -/
def WholeRun (fs : List Finding) (s : Span) : Prop :=
  ∃ before run after, fs = before ++ run ++ after ∧ run ≠ [] ∧ (∀ f ∈ run, f.ty? = none) ∧
    Tiles s.start s.stop (run.map Finding.span) ∧
    (∀ f ∈ before.getLast?, f.ty? ≠ none) ∧ ∀ f ∈ after.head?, f.ty? ≠ none

/-- A run is as whole after findings of which the last is not skipped, if there are any between. -/
theorem WholeRun.after {s : Span} {gs : List Finding} (h : WholeRun fs s)
    (hlast : ∀ g ∈ gs.getLast?, g.ty? = none → ∀ f ∈ fs.head?, f.ty? ≠ none) : WholeRun (gs ++ fs) s := by
  obtain ⟨before, run, after, rfl, hrun, hskipped, hcovered, hbefore, hafter⟩ := h
  refine ⟨gs ++ before, run, after, by simp, hrun, hskipped, hcovered, fun f hf => ?_, hafter⟩
  cases before with
  | cons g before =>
      rw [List.getLast?_append_of_ne_nil _ (List.cons_ne_nil _ _)] at hf
      exact hbefore f hf
  | nil =>
      -- the run comes first, so that what comes before it cannot be skipped
      cases run with
      | nil => exact absurd rfl hrun
      | cons g run =>
          rw [List.append_nil] at hf
          exact fun hnone => hlast f hf hnone g rfl (hskipped g List.mem_cons_self)

/-- **A garbage token covers a whole run** of skipped texts. -/
theorem Gathers.wholeRun (h : Gathers fs ts) (hkinds : ∀ f ∈ fs, ∀ ty ∈ f.ty?, kindOf ty ≠ .error) :
    ∀ t ∈ ts, t.kind = .error → WholeRun fs t.span := by
  induction h with
  | nil => exact List.forall_mem_nil _
  | @found ty span fs ts rest ih =>
      obtain ⟨hfirst, hrest⟩ := List.forall_mem_cons.mp hkinds
      refine List.forall_mem_cons.mpr ⟨fun hkind => absurd hkind (hfirst _ rfl), fun t ht hkind => ?_⟩
      have hlast : ∀ g ∈ [(⟨some ty, span⟩ : Finding)].getLast?, g.ty? = none → ∀ f ∈ fs.head?, f.ty? ≠ none := by
        simp
      exact (ih hrest t ht hkind).after hlast
  | @skipped start stop run fs ts hrun hskipped hcovered hlast rest ih =>
      have hrest := (List.forall_mem_append.mp hkinds).2
      refine List.forall_mem_cons.mpr ⟨fun _ => ?_, fun t ht hkind => ?_⟩
      · have hle : start ≤ stop := hcovered.le
        exact ⟨[], run, fs, rfl, hrun, hskipped, (Span.stop_between hle).symm ▸ hcovered, by simp, hlast⟩
      · exact (ih hrest t ht hkind).after fun _ _ _ => hlast

/-- The token of a finding, unless its text is skipped. -/
def Finding.token? (f : Finding) : Option RangedToken := f.ty?.map fun ty => ⟨kindOf ty, f.span⟩

/-- **All other tokens** are the findings that are not skipped. -/
theorem Gathers.filter_kind (h : Gathers fs ts) (hkinds : ∀ f ∈ fs, ∀ ty ∈ f.ty?, kindOf ty ≠ .error) :
    ts.filter (fun t => t.kind != .error) = fs.filterMap Finding.token? := by
  induction h with
  | nil => rfl
  | @found ty span fs ts rest ih =>
      obtain ⟨hfirst, hrest⟩ := List.forall_mem_cons.mp hkinds
      have htoken : Finding.token? ⟨some ty, span⟩ = some ⟨kindOf ty, span⟩ := rfl
      rw [List.filter_cons_of_pos (by simpa using hfirst _ rfl), List.filterMap_cons_some htoken, ih hrest]
  | skipped _ hskipped _ _ rest ih =>
      have hnone := List.filterMap_eq_nil_iff.mpr fun f hf => show Finding.token? f = none by
        rw [Finding.token?, hskipped f hf, Option.map_none]
      rw [List.filter_cons_of_neg (by simp), List.filterMap_append, hnone, List.nil_append,
        ih (List.forall_mem_append.mp hkinds).2]

/-! ## Tokens that tile a source -/

/-- **Tokens that tile a source**, for what a scan of it came upon. -/
structure Tiling (source : String) (fs : List Finding) (ts : List RangedToken) : Prop where
  /-- Each has bytes, the first starts with the source, each starts where the one before it stops, and the last stops
  with the source. -/
  tiles : Tiles 0 source.utf8ByteSize (ts.map RangedToken.span)
  /-- They start and stop at boundaries of characters. -/
  boundaries : ∀ t ∈ ts, Boundary source t.span.start ∧ Boundary source t.span.stop
  /-- Their texts are the source. -/
  join : String.join (ts.map fun t => t.span.slice source) = source
  /-- No two garbage tokens stand side by side. -/
  apart : ts.IsChain fun t t' => ¬ (t.kind = .error ∧ t'.kind = .error)
  /-- Each of them covers a whole run of skipped texts. -/
  garbage : ∀ t ∈ ts, t.kind = .error → WholeRun fs t.span
  /-- The others are what the scan came upon besides. -/
  found : ts.filter (fun t => t.kind != .error) = fs.filterMap Finding.token?

/-- **Whatever a scan comes upon**, the tokens gathered from it tile the source. -/
theorem Scanned.tiling (h : Scanned source fs) : Tiling source fs (gather source.utf8ByteSize none fs) := by
  have hgathers := (gathers_gather h.tiles).1
  have htiles := hgathers.tiles h.tiles
  have hstarts := hgathers.boundaries h.boundaries
  have hspans : ∀ s ∈ (gather source.utf8ByteSize none fs).map RangedToken.span, Boundary source s.start :=
    List.forall_mem_map.mpr hstarts
  have hstops := htiles.boundary_stop (boundary_utf8ByteSize source) hspans
  refine ⟨htiles, fun t ht => ⟨hstarts t ht, hstops _ (List.mem_map_of_mem ht)⟩, ?_, hgathers.apart h.kinds,
    hgathers.wholeRun h.kinds, hgathers.filter_kind h.kinds⟩
  have hjoin := htiles.join_slices hspans
  rwa [List.map_map] at hjoin

/-- The tokens of a source tile it. -/
theorem tiling_lex (source : String) : Tiling source (scan source) (lex source) := (scanned_scan source).tiling

/-- Every token of a source has a text. -/
theorem utf8ByteSize_pos_of_mem_cut {t : HostToken} (h : t ∈ (cut source).tokens) : 0 < t.text.utf8ByteSize := by
  obtain ⟨t, ht, rfl⟩ := List.mem_map.mp h
  obtain ⟨hstart, hstop⟩ := (tiling_lex source).boundaries t ht
  obtain ⟨-, -, -, -, hlength⟩ := Span.exists_slice hstart hstop
  exact hlength ▸ (tiling_lex source).tiles.length_pos (List.mem_map_of_mem ht)

/-- A token of the host by its place. -/
def RangedToken.ofPlaced (t : PlacedToken) : RangedToken := ⟨t.kind, t.span⟩

/-- **The host puts tokens where they were found**: laid end to end, the texts of tokens that tile are where they were
taken from. -/
theorem map_placeFrom_cut {start stop : Nat} (htiles : Tiles start stop (ts.map RangedToken.span))
    (hboundaries : ∀ t ∈ ts, Boundary source t.span.start ∧ Boundary source t.span.stop) (place : Nat) :
    (HostText.placeFrom place start (ts.map (RangedToken.cut source))).map RangedToken.ofPlaced = ts := by
  induction ts generalizing start place with
  | nil => rfl
  | cons t ts ih =>
      obtain ⟨⟨hstart, hstop⟩, hlater⟩ := List.forall_mem_cons.mp hboundaries
      obtain ⟨-, -, -, -, hlength⟩ := Span.exists_slice hstart hstop
      obtain ⟨rfl, -, hrest⟩ := htiles
      have hspan : t.span.start + (t.cut source).text.utf8ByteSize = t.span.stop := by
        rw [RangedToken.cut, ← hlength, Span.stop]
      have htoken : RangedToken.ofPlaced ⟨t.cut source, place, t.span.start⟩ = t := by
        rw [RangedToken.ofPlaced, PlacedToken.span, RangedToken.cut, ← hlength]
      rw [List.map_cons, HostText.placeFrom, hspan, List.map_cons, htoken, ih hrest hlater]

/-- **The tokens of a sample source tile it.**  The scan of a source comes upon stretches that tile it, and so do the
tokens: each has bytes, they follow each other without gaps or overlaps from the start of the source to its end, and
their texts put together are the source.  No two garbage tokens stand side by side, each covers a whole run of skipped
texts, and all other tokens are where the scan came upon them.  The host puts the tokens just there, and no offset is
greater than the length of the source.  It would be the same for any other scan whose stretches tile the source. -/
theorem lex_tiles (source : String) :
    Scanned source (scan source) ∧ Tiling source (scan source) (lex source) ∧
      (cut source).placed.map RangedToken.ofPlaced = lex source ∧ (cut source).source = source ∧
      (∀ t ∈ lex source, t.span.start < t.span.stop ∧ t.span.stop ≤ source.utf8ByteSize) ∧
      ∀ fs, Scanned source fs → Tiling source fs (gather source.utf8ByteSize none fs) := by
  have htiling := tiling_lex source
  refine ⟨scanned_scan source, htiling, map_placeFrom_cut htiling.tiles htiling.boundaries 0, ?_, fun t ht => ?_,
    fun fs hfs => hfs.tiling⟩
  · have htexts : (cut source).tokens.map HostToken.text = (lex source).map fun t => t.span.slice source :=
      List.map_map
    rw [HostText.source, htexts, htiling.join]
    exact String.append_empty
  · have hlength := htiling.tiles.length_pos (List.mem_map_of_mem ht)
    refine ⟨?_, (htiling.boundaries t ht).2.le⟩
    rw [Span.stop]
    omega

/-- Two texts are skipped between a name and a blank, and one at the end; any other scan that skips them one by one
gives the same garbage. -/
theorem lex_tiles_runs :
    lex "a$é @" = [⟨17, 0, 1⟩, ⟨.error, 1, 3⟩, ⟨20, 4, 1⟩, ⟨.error, 5, 1⟩] ∧
      WholeRun (scan "a$é @") ⟨1, 3⟩ ∧
      Scanned "$é" [⟨none, 0, 1⟩, ⟨none, 1, 2⟩] ∧
      Tiling "$é" [⟨none, 0, 1⟩, ⟨none, 1, 2⟩] (gather "$é".utf8ByteSize none [⟨none, 0, 1⟩, ⟨none, 1, 2⟩]) := by
  have hlex : lex "a$é @" = [⟨17, 0, 1⟩, ⟨.error, 1, 3⟩, ⟨20, 4, 1⟩, ⟨.error, 5, 1⟩] := by decide +kernel
  have hscanned : Scanned "$é" [⟨none, 0, 1⟩, ⟨none, 1, 2⟩] :=
    ⟨by decide +kernel, by decide +kernel, by simp⟩
  obtain ⟨-, htiling, -⟩ := lex_tiles "a$é @"
  obtain ⟨-, -, -, -, -, hany⟩ := lex_tiles "$é"
  refine ⟨hlex, htiling.garbage ⟨.error, 1, 3⟩ ?_ rfl, hscanned, hany _ hscanned⟩
  rw [hlex]
  exact List.mem_cons_of_mem _ List.mem_cons_self

end Sample

end TreeProjection
