import TreeProjection.Command.Run
import TreeProjection.Proofs.Sample.Anchored
import TreeProjection.Proofs.Sample.Earliest

/-! # The sample parser accepts the sample language

A source of the sample language is parsed without an error element if and only if its token types are a sentence.
If they are, nothing is reported, the parse tree is a derivation, and no region is closed as an error.  If they are
not, something is reported, and whatever is reported has an error element in the tree.

* `Sample.soundAll_of_spells` — a derivation is projected without error elements.
* `Sample.Recognized` — what a whole parse of a source comes to.
* `Sample.parse_accepts` — the parser accepts its grammar. -/

namespace TreeProjection

open ParseNode (View)

/-- The outlines of trees one after the other. -/
theorem Outline.ofViews_append (e : ElementTypes) (errors : ErrorIndex) (spent : List Nat)
    (vs ws : List View) : ofViews e errors spent (vs ++ ws) =
      ((ofViews e errors spent vs).1 ++ (ofViews e errors (ofViews e errors spent vs).2 ws).1,
        (ofViews e errors (ofViews e errors spent vs).2 ws).2) := by
  induction vs generalizing spent with
  | nil => rfl
  | cons v vs ih => rw [List.cons_append, ofViews, ofViews, ih, List.append_assoc]

namespace Sample

/-! ## Derivations -/

/-- The rules that a phrase names. -/
def Phrase.rules : Phrase → List RuleIndex
  | token _ => []
  | rule r => [r]
  | empty => []
  | seq a b => a.rules ++ b.rules
  | alt a b => a.rules ++ b.rules
  | many a => a.rules
  | beginning _ a => a.rules

/-- **A phrase names rules of the language** only. -/
def Phrase.Known (a : Phrase) : Prop := ∀ r ∈ a.rules, r.code < language.elements.ruleCount

/-- The right-hand sides name rules of the language. -/
theorem known_rhs (r : RuleIndex) : (rhs r).Known := by
  unfold rhs Phrase.Known
  repeat' split
  all_goals decide

/-- The rules of the language have kinds of their own. -/
theorem kindOf_ne_error {r : RuleIndex} (h : r.code < language.elements.ruleCount) :
    language.elements.kindOf r ≠ .error := by
  have hstart : language.elements.rulesStart = 22 := by decide +kernel
  have hcount : language.elements.ruleCount = 9 := by decide +kernel
  rw [hcount, UInt16.lt_iff_toNat_lt] at h
  intro herror
  have hkind := congrArg UInt16.toNat herror
  rw [ElementTypes.kindOf, hstart, UInt16.toNat_add] at hkind
  simp only [Kind.error, UInt16.reduceToNat] at h hkind
  omega

/-- **A derivation is projected without error elements.** -/
theorem soundAll_of_spells {a : Phrase} {vs : List View} (h : Spells a vs) (hknown : a.Known)
    (errors : ErrorIndex) (spent : List Nat) :
    Outline.SoundAll (Outline.ofViews language.elements errors spent vs).1 := by
  induction h generalizing spent with
  | token t =>
      rw [Outline.ofViews, Outline.ofView, Outline.ofViews, List.append_nil, Outline.passed]
      split
      · trivial
      · exact ⟨trivial, trivial⟩
  | @rule r vs well h ih =>
      rw [Outline.ofViews, Outline.ofView, Outline.ofViews, well]
      exact ⟨⟨kindOf_ne_error (hknown _ List.mem_cons_self), ih (known_rhs _) spent⟩, trivial⟩
  | empty => trivial
  | seq ha hb iha ihb =>
      rw [Outline.ofViews_append]
      exact Outline.soundAll_append.mpr ⟨iha (fun r hr => hknown r (List.mem_append_left _ hr)) _,
        ihb (fun r hr => hknown r (List.mem_append_right _ hr)) _⟩
  | left h ih => exact ih (fun r hr => hknown r (List.mem_append_left _ hr)) spent
  | right h ih => exact ih (fun r hr => hknown r (List.mem_append_right _ hr)) spent
  | none => trivial
  | more ha hmany iha ihmany =>
      rw [Outline.ofViews_append]
      exact Outline.soundAll_append.mpr ⟨iha hknown _, ihmany hknown _⟩
  | beginning h hbegins ih => exact ih hknown spent

/-! ## Whole sources -/

variable {source : String} {tree : HostTree}

/-- **What a whole parse of a source comes to**: a derivation of the source without a report, or a first report where
the source goes wrong. -/
inductive Recognized (source : String) (reports : List Report) (v : View) : Prop where
  /-- The tree is a derivation. -/
  | well (silent : reports = []) (spells : Spells (.rule scriptRule) [v])
    (types : typesOf [v] = terminals source)
  /-- The source goes wrong. -/
  | broken (first : Broken (tape source) reports)

/-- **A source that is parsed** has been recognized, and the tree has been projected. -/
theorem projected_of_parse (hok : parse source = .ok tree) : ∃ q r vs,
    ({} : Session).Projected grammar scriptRule .file (host source) tree q r vs ∧
      Recognized source q.reports (.rule r vs) := by
  obtain ⟨q, r, vs, hprojected⟩ := Session.projected (ordinaryRule_stepsFor _ _) rfl hok
  refine ⟨q, r, vs, hprojected, ?_⟩
  have hruns := runs_script (parser_fresh {} (host source).mark.2 rfl rfl)
    (plain_tape source) rfl (stepsFor (TreeBuilder.remaining (host source).builder))
  obtain ⟨-, node, ws, hwhole, h⟩ := Ends.of_ok hruns hprojected.run
  -- both views are of one tree
  have hsame : View.rule node ws = View.rule r vs :=
    Option.some.inj (hwhole.view.symm.trans hprojected.whole.view)
  rw [hsame] at h
  obtain ⟨rfl, rfl⟩ := View.rule.inj hsame
  rcases h with ⟨hsilent, hspells, htypes⟩ | hbroken
  · exact .well hsilent hspells (by rw [typesOf_rule, htypes, types_tape])
  · exact .broken hbroken

/-- A sentence never goes wrong. -/
theorem not_broken_of_sentence {reports : List Report} (h : Sentence (terminals source)) :
    ¬ Broken (tape source) reports := by
  rintro ⟨r, rest, m, -, hrefuted, -⟩
  refine hrefuted.upTo ⟨(terminals source).drop (m + 1), ?_⟩
  rw [Tape.word, List.drop_zero, types_tape, List.take_append_drop]
  exact h

/-- **A derivation has no error elements** in the host tree. -/
theorem errors_of_spells {s : Session} {q : Parser (Supervised GreenBuilder)} {r : RuleNode}
    {vs : List View} (hprojected : s.Projected grammar scriptRule .file (host source) tree q r vs)
    (hspells : Spells (.rule scriptRule) [.rule r vs]) :
    tree.green.errorSpans 0 = [] ∧ tree.errors = [] := by
  obtain ⟨b, hbuild, hfinish, -, hlen⟩ := hprojected.carried rfl rfl
  refine GreenBuilder.finish_sound hbuild hfinish hlen (by decide) ?_
  refine Outline.soundAll_append.mpr ⟨?_, Outline.soundAll_map_token _⟩
  have hsound := soundAll_of_spells hspells (by
    intro r hr
    rw [List.mem_singleton.mp hr]
    decide) (.ofReports q.reports) []
  rwa [Outline.ofViews, Outline.ofViews, List.append_nil] at hsound

/-- **Where something is reported, there is an error element** in the host tree. -/
theorem errors_of_broken {s : Session} {q : Parser (Supervised GreenBuilder)} {r : RuleNode}
    {vs : List View} (hprojected : s.Projected grammar scriptRule .file (host source) tree q r vs)
    (hbroken : Broken (tape source) q.reports) : tree.errors ≠ [] := by
  obtain ⟨report, rest, m, hreports, -, -⟩ := hbroken
  have hmem : SyntaxError.ofReport report ∈ (ErrorCollector.ofReports q.reports).errors := by
    rw [hreports]
    exact ErrorCollector.ofReport_mem
  obtain ⟨a, -, -, hcovers⟩ := covers_projected rfl hprojected hmem
  exact hprojected.errors_ne_nil rfl hcovers

/-- **The sample parser accepts exactly its grammar.** A source that is parsed has no error element if and only if its
token types are a sentence.  Then no node of the host tree is an error, there are no diagnostics, checking the source
succeeds, and the recognizer's tree is a derivation of the sentence. -/
theorem parse_accepts (hok : parse source = .ok tree) :
    (tree.errors = [] ↔ Sentence (terminals source)) ∧
    (Sentence (terminals source) →
      tree.green.errorSpans 0 = [] ∧ Diagnostic.ofTree tree = [] ∧
      (∀ path coloured, Input.check ⟨.sample, scriptRule, source, path⟩ coloured = {}) ∧
      ∃ t errors v,
        (({} : Session).recognize grammar scriptRule (host source)).1.outcome = .ok (t, errors) ∧
        t.view? = some v ∧ Spells (.rule scriptRule) [v] ∧ typesOf [v] = terminals source) := by
  obtain ⟨q, r, vs, hprojected, hrecognized⟩ := projected_of_parse hok
  cases hrecognized with
  | broken hbroken =>
      have hnot : ¬ Sentence (terminals source) := fun h => not_broken_of_sentence h hbroken
      refine ⟨⟨fun h => absurd h (errors_of_broken hprojected hbroken), fun h => absurd h hnot⟩, ?_⟩
      exact fun h => absurd h hnot
  | well hsilent hspells htypes =>
      have hsentence : Sentence (terminals source) := htypes ▸ hspells.derives
      obtain ⟨hspans, herrors⟩ := errors_of_spells hprojected hspells
      have hdiagnostics : Diagnostic.ofTree tree = [] := by
        rw [Diagnostic.ofTree, herrors]
        rfl
      refine ⟨⟨fun _ => hsentence, fun _ => herrors⟩, fun _ => ⟨hspans, hdiagnostics, ?_, ?_⟩⟩
      · intro path coloured
        have htree : Input.tree ⟨.sample, scriptRule, source, path⟩ = .ok tree := hok
        rw [Input.check, Input.withTree, htree]
        simp only [hdiagnostics]
      · exact ⟨q.tree, _, .rule r vs, hprojected.recognize (ordinaryRule_stepsFor _ _),
          hprojected.whole.view, hspells, htypes⟩

/-- A source that is a sentence, and a source that is not. -/
theorem parse_accepts_call :
    (∃ tree v, parse "f ( 1 ) ;" = .ok tree ∧ tree.errors = [] ∧
      Sentence (terminals "f ( 1 ) ;") ∧ Diagnostic.ofTree tree = [] ∧
      Spells (.rule scriptRule) [v] ∧ typesOf [v] = terminals "f ( 1 ) ;") ∧
    (∃ tree, parse "f ( 1 , ;" = .ok tree ∧ tree.errors ≠ [] ∧
      ¬ Sentence (terminals "f ( 1 , ;")) := by
  have hgood : ∃ tree, parse "f ( 1 ) ;" = .ok tree ∧ tree.errors = [] := by decide +kernel
  have hbad : ∃ tree, parse "f ( 1 , ;" = .ok tree ∧ tree.errors ≠ [] := by decide +kernel
  constructor
  · obtain ⟨tree, hok, hnil⟩ := hgood
    obtain ⟨haccepts, hderives⟩ := parse_accepts hok
    have hsentence := haccepts.mp hnil
    obtain ⟨-, hdiagnostics, -, t, errors, v, -, -, hspells, htypes⟩ := hderives hsentence
    exact ⟨tree, v, hok, hnil, hsentence, hdiagnostics, hspells, htypes⟩
  · obtain ⟨tree, hok, hne⟩ := hbad
    exact ⟨tree, hok, hne, fun h => hne ((parse_accepts hok).1.mpr h)⟩

end Sample

end TreeProjection
