import TreeProjection.Proofs.Sample.Earliest

/-! # Single-token repairs of a sample source

Where a token is expected that is not there, the parser may leave out the current token or make up the expected one.
The first time it does, the repair is sound: what has been read, with the token left out or put in, is the beginning
of a sentence.  This is where it matters that the sets of types that the grammar states to follow a token or an
invocation are right, and that they leave it to the callers only where a rule can end.

* `Sample.FirstRepairSound` — the repair that the first report in a journal tells of is sound.
* `Sample.first_repair_sound` — it is, with the recognizer alone and in a projection. -/

namespace TreeProjection.Sample

/-- **The repair that the first report in a journal tells of is sound.** The source is split at the token that is
reported.  If a type is reported as missing in front of it, then what comes before, the missing type, and the token are
the beginning of a sentence.  If the token is reported as one too many where a single type was expected, then what comes
before and the next token are.  No other report tells of a repair by one token: it has an exception, or it is made by
the guard of a loop, which expects several types. -/
def FirstRepairSound (source : String) (journal : List Note) : Prop :=
  ∀ r rest, journal.filterMap Note.report? = r :: rest →
    ∃ before t after, terminals source = before ++ t :: after ∧
      r.offending.index = some before.length ∧
      (∀ ty, r = .missing language.vocabulary (.single ty) r.offending → Viable (before ++ [ty, t])) ∧
      (∀ ty, r = .extraneous language.vocabulary (.single ty) r.offending →
        ∃ next rest, after = next :: rest ∧ Viable (before ++ [next])) ∧
      (r.exception = none →
        (∃ ty, r = .missing language.vocabulary (.single ty) r.offending) ∨
        (∃ ty, r = .extraneous language.vocabulary (.single ty) r.offending) ∨
        ∃ set, Several set ∧ r = .extraneous language.vocabulary set r.offending)

namespace FirstRepairSound

variable {source : String} {journal : List Note} {r : Report} {rest : List Report} {ty t next : TokenType}
  {before after : List TokenType}

/-- With a missing token put in, what has been read is the beginning of a sentence. -/
theorem missing (h : FirstRepairSound source journal) (hreports : journal.filterMap Note.report? = r :: rest)
    (hsource : terminals source = before ++ t :: after) (hindex : r.offending.index = some before.length)
    (hr : r = .missing language.vocabulary (.single ty) r.offending) : Viable (before ++ [ty, t]) := by
  obtain ⟨before', t', after', hsource', hindex', hmissing, -⟩ := h r rest hreports
  have hlength : before.length = before'.length := Option.some.inj (hindex.symm.trans hindex')
  obtain ⟨rfl, hsame⟩ := List.append_inj (hsource.symm.trans hsource') hlength
  rw [(List.cons.inj hsame).1]
  exact hmissing ty hr

/-- With a token left out that is one too many, what has been read is the beginning of a sentence. -/
theorem extraneous (h : FirstRepairSound source journal)
    (hreports : journal.filterMap Note.report? = r :: rest)
    (hsource : terminals source = before ++ t :: next :: after)
    (hindex : r.offending.index = some before.length)
    (hr : r = .extraneous language.vocabulary (.single ty) r.offending) : Viable (before ++ [next]) := by
  obtain ⟨before', t', after', hsource', hindex', -, hextraneous, -⟩ := h r rest hreports
  have hlength : before.length = before'.length := Option.some.inj (hindex.symm.trans hindex')
  obtain ⟨rfl, hsame⟩ := List.append_inj (hsource.symm.trans hsource') hlength
  obtain ⟨next', rest', hafter, hviable⟩ := hextraneous ty hr
  rw [← (List.cons.inj hsame).2] at hafter
  rw [(List.cons.inj hafter).1]
  exact hviable

end FirstRepairSound

/-- The types on a tape, split at a place. -/
theorem types_eq_append (x : Tape) {m : Nat} (hm : m ≤ x.size) :
    x.types = x.word 0 m ++ x.type m :: x.word (m + 1) (x.size + 1) := by
  rw [← x.word_eq_cons hm (Nat.lt_succ_of_le hm), x.word_append (Nat.zero_le m) (Nat.le_succ_of_le hm)]
  exact (List.take_of_length_le (Nat.le_of_eq x.length_types)).symm

/-- **What the first report tells of is sound of the source** if it is on the tape. -/
theorem firstRepairSound_of_fair {source : String} {journal : List Note}
    (h : Fair (tape source) (journal.filterMap Note.report?)) : FirstRepairSound source journal := by
  intro r rest hreports
  rw [hreports] at h
  rcases h with h | ⟨r', rest', m, hsame, hrefuted, hoffending, hmends⟩
  · cases h
  · obtain ⟨rfl, rfl⟩ := List.cons.inj hsame
    have hle := hrefuted.le_size
    have hlength : ((tape source).word 0 m).length = m := by
      rw [Tape.word, List.drop_zero, List.length_take, Tape.length_types]
      omega
    rw [← types_tape, hoffending]
    refine ⟨_, _, _, types_eq_append _ hle, ?_, hmends.missing, fun ty hr => ?_, hmends.kind⟩
    · rw [Tape.token_index, Nat.min_eq_left hle, hlength]
    · obtain ⟨hlt, hviable⟩ := hmends.extraneous ty hr
      exact ⟨_, _, Tape.word_eq_cons _ hlt (Nat.succ_lt_succ hlt), hviable⟩

variable {β τ : Type} [TreeBuilder β τ] [CursorBuilder β] {s : Session} {source : String}
  {host : Supervised β}

/-- **Single-token repairs are sound.** Whatever the source and the host, the repair that the first report of a parse
from the rule for whole sources tells of is sound, with the recognizer alone and in a projection. -/
theorem first_repair_sound {root : Kind} (hcursor : host.cursor = .ofText (cut source) language)
    (helements : host.elements = language.elements) :
    FirstRepairSound source (s.recognize grammar scriptRule host).1.journal ∧
      FirstRepairSound source (s.project (τ := τ) grammar scriptRule root host).1.journal := by
  constructor
  · exact firstRepairSound_of_fair (fair_recognize hcursor helements)
  · exact firstRepairSound_of_fair (fair_project hcursor helements)

/-- A bracket that is missing in front of a semicolon, as only the callers of the rule for factors can tell, and a
second name in a declaration, in a projection. -/
theorem first_repair_sound_call :
    let missing := (({} : Session).recognize grammar scriptRule (Sample.host "f ( 1 ;")).1.journal
    let projected : Projection HostTree :=
      (({} : Session).project grammar scriptRule .file (Sample.host "var x x = 1 ;")).1
    (missing.filterMap Note.report?).head?.map Report.message = some "missing ')' at ';'" ∧
      Viable [ident, lparen, int, rparen, semi] ∧
      (projected.journal.filterMap Note.report?).head?.map Report.message =
        some "extraneous input 'x' expecting '='" ∧
      Viable [var, ident, assign] := by
  intro missing projected
  have hmissing : FirstRepairSound "f ( 1 ;" missing ∧ FirstRepairSound "f ( 1 ;" (({} : Session).project
      (τ := HostTree) grammar scriptRule .file (Sample.host "f ( 1 ;")).1.journal := first_repair_sound rfl rfl
  have hprojected : FirstRepairSound "var x x = 1 ;" projected.journal := (first_repair_sound rfl rfl).2
  have hfirst : (missing.filterMap Note.report?).head?.map (fun r => (r.message, r.offending.index,
      decide (r = .missing language.vocabulary (.single rparen) r.offending))) =
        some ("missing ')' at ';'", some 3, true) := by decide +kernel
  have hfirst' : (projected.journal.filterMap Note.report?).head?.map (fun r => (r.message, r.offending.index,
      decide (r = .extraneous language.vocabulary (.single assign) r.offending))) =
        some ("extraneous input 'x' expecting '='", some 2, true) := by decide +kernel
  obtain ⟨r, hr, hshown⟩ := Option.map_eq_some_iff.mp hfirst
  obtain ⟨r', hr', hshown'⟩ := Option.map_eq_some_iff.mp hfirst'
  obtain ⟨rest, hreports⟩ := List.head?_eq_some_iff.mp hr
  obtain ⟨rest', hreports'⟩ := List.head?_eq_some_iff.mp hr'
  simp only [Prod.mk.injEq, decide_eq_true_eq] at hshown hshown'
  obtain ⟨hmessage, hindex, hreport⟩ := hshown
  obtain ⟨hmessage', hindex', hreport'⟩ := hshown'
  have hterminals : terminals "f ( 1 ;" = [ident, lparen, int] ++ semi :: [.eof] := by decide +kernel
  have hterminals' : terminals "var x x = 1 ;" = [var, ident] ++ ident :: [assign, int, semi, .eof] := by
    decide +kernel
  refine ⟨by rw [hr, Option.map_some, hmessage], hmissing.1.missing hreports hterminals hindex hreport,
    by rw [hr', Option.map_some, hmessage'], ?_⟩
  exact hprojected.extraneous hreports' hterminals' hindex' hreport'

end TreeProjection.Sample
