import TreeProjection.Proofs.Projecting
import TreeProjection.Proofs.Sample.Viable
import TreeProjection.Sample.Parse

/-! # The first syntax error of a sample source

The first report of a parse is made of the token at which the source goes wrong: what comes before is the beginning
of a sentence, and with the token it is not.  That holds of every run, also of one that is given up after the report.

* `Sample.terminals` — the token types of a source.
* `Sample.FirstReportEarliest` — the first report in a journal is where the source goes wrong.
* `Sample.first_report_earliest` — it is, with the recognizer alone and in a projection. -/

namespace TreeProjection.Sample

/-- **The token types of a source**: those of its tokens that are not trivia, and the end. -/
def terminals (source : String) : List TokenType :=
  ((cut source).significant language).map (fun t => language.elements.typeOf t.kind) ++ [.eof]

/-- What a host over a source gives. -/
def tape (source : String) : Tape := (HostCursor.ofText (cut source) language).tape language.elements

/-- The types on the tape of a source are those of the source. -/
theorem types_tape (source : String) : (tape source).types = terminals source := by
  simp only [Tape.types, Tape.all, tape, HostCursor.tape, HostCursor.ofText, terminals,
    List.map_append, List.map_map]
  rfl

/-- Nothing on the tape of a source is hidden. -/
theorem plain_tape (source : String) : (tape source).Plain := HostCursor.plain_tape _ _

/-- **The first report in a journal is where the source goes wrong**, if there is one: the types before the token that
is reported are the beginning of a sentence, and those up to it are not. -/
def FirstReportEarliest (source : String) (journal : List Note) : Prop :=
  ∀ r rest, journal.filterMap Note.report? = r :: rest →
    ∃ m, r.offending.index = some m ∧ m < (terminals source).length ∧
      Viable ((terminals source).take m) ∧ ¬ Viable ((terminals source).take (m + 1))

/-- Where the tape goes wrong is where the source does. -/
theorem firstReportEarliest_of_fair {source : String} {journal : List Note}
    (h : Fair (tape source) (journal.filterMap Note.report?)) : FirstReportEarliest source journal := by
  intro r rest hreports
  rw [hreports] at h
  rcases h with h | ⟨r', rest', m, hsame, hrefuted, hoffending, -⟩
  · cases h
  · obtain ⟨rfl, rfl⟩ := List.cons.inj hsame
    have hle := hrefuted.le_size
    refine ⟨m, ?_, ?_, ?_, ?_⟩
    · rw [hoffending, Tape.token_index, Nat.min_eq_left hle]
    · rw [← types_tape, Tape.length_types]
      exact Nat.lt_succ_of_le hle
    · rw [← types_tape]
      exact hrefuted.before
    · rw [← types_tape]
      exact hrefuted.upTo

variable {β τ : Type} [TreeBuilder β τ] [CursorBuilder β] {s : Session} {source : String}
  {host : Supervised β}

/-- The parser of a run over a source, at the start of its tokens. -/
theorem parser_fresh (s : Session) (host : Supervised β)
    (hcursor : host.cursor = .ofText (cut source) language)
    (helements : host.elements = language.elements) :
    (s.parser language host).Fresh (tape source) := by
  have hfresh := s.parser_fresh language host (by rw [hcursor]; rfl)
  rwa [hcursor, helements] at hfresh

/-- **The first report of a run is where the source goes wrong**, whatever becomes of the run. -/
theorem fair_runRecognizer (hcursor : host.cursor = .ofText (cut source) language)
    (helements : host.elements = language.elements) :
    Fair (tape source)
      ((s.runRecognizer grammar scriptRule host).journal.filterMap Note.report?) := by
  have hruns := runs_script (parser_fresh s host hcursor helements) (plain_tape source) rfl
    (stepsFor (TreeBuilder.remaining host.builder))
  have hentry : grammar.entry (stepsFor (TreeBuilder.remaining host.builder)) scriptRule =
      script (stepsFor (TreeBuilder.remaining host.builder)) := rfl
  unfold Session.runRecognizer
  simp only [hentry]
  cases hrun : (script (stepsFor (TreeBuilder.remaining host.builder))).run
      (s.parser grammar.language host) with
  | ok a q =>
      obtain ⟨-, node, vs, -, h⟩ := Ends.of_ok hruns hrun
      exact h.imp And.left id
  | error i q =>
      have hend := Ends.of_error hruns hrun
      cases i with
      | recognition e => exact nomatch hend.1
      | abort a => exact hend

/-- The same of a parse by the recognizer alone. -/
theorem fair_recognize (hcursor : host.cursor = .ofText (cut source) language)
    (helements : host.elements = language.elements) : Fair (tape source)
      ((s.recognize grammar scriptRule host).1.journal.filterMap Note.report?) :=
  fair_runRecognizer hcursor helements

/-- The same of a projection. -/
theorem fair_project {root : Kind} (hcursor : host.cursor = .ofText (cut source) language)
    (helements : host.elements = language.elements) : Fair (tape source)
      ((s.project (τ := τ) grammar scriptRule root host).1.journal.filterMap Note.report?) := by
  have hmarked : host.mark.2.cursor = .ofText (cut source) language := host.cursor_mark.trans hcursor
  have hvalid : grammar.language.checkEntry scriptRule = .ok () := rfl
  rw [Session.journal_project hvalid]
  exact fair_runRecognizer hmarked helements

/-- **The first syntax error is reported at the earliest token that shows it**, by the recognizer alone and in a
projection. -/
theorem first_report_earliest {root : Kind} (hcursor : host.cursor = .ofText (cut source) language)
    (helements : host.elements = language.elements) :
    FirstReportEarliest source (s.recognize grammar scriptRule host).1.journal ∧
      FirstReportEarliest source (s.project (τ := τ) grammar scriptRule root host).1.journal := by
  constructor
  · exact firstReportEarliest_of_fair (fair_recognize hcursor helements)
  · exact firstReportEarliest_of_fair (fair_project hcursor helements)

/-- A source in the sample language that goes wrong after a comma. -/
theorem first_report_earliest_call :
    let source := "f ( 1 , ; // \n\x7d"
    let journal := (({} : Session).recognize grammar scriptRule (Sample.host source)).1.journal
    let projected : Projection HostTree :=
      (({} : Session).project grammar scriptRule .file (Sample.host source)).1
    (journal.filterMap Note.report?).head?.map (fun r => r.offending.index) = some (some 4) ∧
      Viable ((terminals source).take 4) ∧ ¬ Viable ((terminals source).take 5) ∧
      FirstReportEarliest source projected.journal := by
  intro source journal projected
  have hearliest : FirstReportEarliest source journal ∧
      FirstReportEarliest source projected.journal := first_report_earliest rfl rfl
  have hindex : (journal.filterMap Note.report?).head?.map (fun r => r.offending.index) =
      some (some 4) := by decide +kernel
  refine ⟨hindex, ?_⟩
  cases hreports : journal.filterMap Note.report? with
  | nil =>
      rw [hreports] at hindex
      cases hindex
  | cons r rest =>
      rw [hreports] at hindex
      obtain ⟨m, hm, -, hbefore, hupTo⟩ := hearliest.1 r rest hreports
      have hfour : m = 4 := Option.some.inj (hm.symm.trans (Option.some.inj hindex))
      rw [hfour] at hbefore hupTo
      exact ⟨hbefore, hupTo, hearliest.2⟩

end TreeProjection.Sample
