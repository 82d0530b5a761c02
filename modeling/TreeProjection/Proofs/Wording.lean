import TreeProjection.Proofs.Course
import TreeProjection.Proofs.Ordinary

/-! # Messages that keep to one line

Messages are merged by putting each on a line of its own, so that a message with a line break in it would fall apart
when they are split again.  The text of a token may hold line breaks, but it is never shown as it is: what messages are
put together of has been escaped, or comes from the grammar.  If nothing that comes from the grammar has a line break,
then whatever an ordinary recognizer meets, each report is one line, and so is the text of each token that it makes up.

* `Text.lines_joinLines` — lines that are merged and split again are the lines.
* `Parser.oneLine_exceptionMessage` — what is reported of an exception is one line.
* `Parser.Worded` — all that a parse has said so far is one line each; `Parser.Words` — an action leaves it so.
* `Recognizer.Ordinary.words` — every ordinary recognizer does. -/

namespace TreeProjection

/-! ## Lines -/

namespace Text

/-- **A text without line breaks** holds neither line feeds nor carriage returns. -/
def Unbroken (s : String) : Prop := ∀ c ∈ s.toList, c ≠ '\n' ∧ c ≠ '\r'

instance (s : String) : Decidable (Unbroken s) :=
  decidable_of_iff ((s.toList.all fun c => c != '\n' && c != '\r') = true) (by simp [Unbroken])

/-- **A text that is one line**: there is something on it, and nothing breaks it. -/
structure OneLine (s : String) : Prop where
  /-- There is something on the line. -/
  ne_empty : s ≠ ""
  /-- Nothing breaks the line. -/
  unbroken : Unbroken s

variable {s t : String} {texts : List String} {line rest cs : List Char}

/-- Two texts without line breaks, one after the other. -/
theorem Unbroken.append (hs : Unbroken s) (ht : Unbroken t) : Unbroken (s ++ t) := by
  intro c hc
  rw [String.toList_append] at hc
  exact (List.mem_append.mp hc).elim (hs c) (ht c)

/-- Texts without line breaks, with one between them. -/
theorem Unbroken.intercalate (hs : Unbroken s) (htexts : ∀ t ∈ texts, Unbroken t) : Unbroken (s.intercalate texts) := by
  induction texts with
  | nil => simp [Unbroken]
  | cons t texts ih =>
      have hrest := ih fun u hu => htexts u (List.mem_cons_of_mem _ hu)
      cases texts with
      | nil => simpa using htexts t List.mem_cons_self
      | cons u texts =>
          rw [String.intercalate_cons_cons]
          exact ((htexts t List.mem_cons_self).append hs).append hrest

/-- A number is written without line breaks. -/
theorem unbroken_toString (n : Nat) : Unbroken (toString n) := by
  intro c hc
  have hdigit : c.isDigit = true := by
    refine Nat.isDigit_of_mem_toDigits (b := 10) (n := n) (by decide) (by decide) ?_
    simpa [Nat.repr, toString] using hc
  constructor
  · rintro rfl
    cases hdigit
  · rintro rfl
    cases hdigit

/-- **What a text is shown as in messages** has no line breaks, whatever the text is. -/
theorem unbroken_shown (s : String) : Unbroken (shown s) := by
  have hescaped : ∀ letter : Char, letter ≠ '\n' ∧ letter ≠ '\r' → ∀ d ∈ ['\\', letter], d ≠ '\n' ∧ d ≠ '\r' := by
    intro letter hletter d hd
    rw [List.mem_cons, List.mem_singleton] at hd
    rcases hd with rfl | rfl
    · decide
    · exact hletter
  -- a letter that is left as it is is none of those that are escaped
  have hescape : ∀ c, ∀ d ∈ escapeBlank c, d ≠ '\n' ∧ d ≠ '\r' := by
    intro c d hd
    unfold escapeBlank at hd
    split at hd
    · exact hescaped 'n' (by decide) d hd
    · exact hescaped 'r' (by decide) d hd
    · exact hescaped 't' (by decide) d hd
    · rename_i hn hr _
      rw [List.mem_singleton.mp hd]
      exact ⟨hn, hr⟩
  have hblanks : Unbroken (escapeBlanks s) := by
    intro d hd
    rw [escapeBlanks, String.toList_ofList] at hd
    obtain ⟨c, -, hd⟩ := List.mem_flatMap.mp hd
    exact hescape c d hd
  exact (Unbroken.append (by decide) hblanks).append (by decide)

/-- A line goes on. -/
theorem OneLine.append (hs : OneLine s) (ht : Unbroken t) : OneLine (s ++ t) where
  ne_empty h := hs.ne_empty (String.append_eq_empty_iff.mp h).1
  unbroken := hs.unbroken.append ht

/-- Characters that do not break the line are taken into it. -/
theorem linesFrom_append (hcs : ∀ c ∈ cs, c ≠ '\n' ∧ c ≠ '\r') (line rest : List Char) :
    linesFrom line (cs ++ rest) = linesFrom (cs.reverse ++ line) rest := by
  induction cs generalizing line with
  | nil => rfl
  | cons c cs ih =>
      have hc : c ≠ '\n' := (hcs c List.mem_cons_self).1
      rw [List.cons_append, linesFrom]
      · rw [ih fun d hd => hcs d (List.mem_cons_of_mem _ hd), List.reverse_cons, List.append_assoc]
        rfl
      · exact hc

/-- A line without carriage returns is closed as it is. -/
theorem closeLine_of_unbroken (hs : Unbroken s) : closeLine (s.toList.reverse ++ []) = s := by
  rw [List.append_nil]
  unfold closeLine
  split
  · rename_i rest hline
    have hmem : '\r' ∈ s.toList := List.mem_reverse.mp (hline ▸ List.mem_cons_self)
    exact absurd rfl (hs _ hmem).2
  · rw [List.reverse_reverse, String.ofList_toList]

/-- **Lines that are merged and split again** are the lines. -/
theorem lines_joinLines (h : ∀ t ∈ texts, OneLine t) : lines (joinLines texts) = texts := by
  unfold lines joinLines
  induction texts with
  | nil => rfl
  | cons t texts ih =>
      have ht := h t List.mem_cons_self
      have hrest := ih fun u hu => h u (List.mem_cons_of_mem _ hu)
      cases texts with
      | nil =>
          have hne : t.toList ≠ [] := fun hnil => ht.ne_empty (String.toList_eq_nil_iff.mp hnil)
          have hline := linesFrom_append ht.unbroken [] []
          rw [List.append_nil, List.append_nil] at hline
          rw [String.intercalate_singleton, hline, linesFrom]
          simp [hne]
      | cons u texts =>
          rw [String.intercalate_cons_cons, String.toList_append, String.toList_append, List.append_assoc,
            linesFrom_append ht.unbroken]
          change closeLine (t.toList.reverse ++ []) :: linesFrom [] ("\n".intercalate (u :: texts)).toList = _
          rw [closeLine_of_unbroken ht.unbroken, hrest]

end Text

open Text (Unbroken OneLine)

/-! ## Names in messages -/

/-- **A language whose names are free of line breaks**, as far as messages show them. -/
structure Language.Unbroken (l : Language) : Prop where
  /-- The names of types that are shown to readers. -/
  types : ∀ ty, Text.Unbroken (l.vocabulary.displayName ty)
  /-- The names of rules. -/
  rules : ∀ name ∈ l.ruleNames, Text.Unbroken name

/-- **A set is shown on one line**, if the names of types are. -/
theorem Vocabulary.unbroken_displaySet {v : Vocabulary} (h : ∀ ty, Unbroken (v.displayName ty)) (s : TokenSet) :
    Unbroken (v.displaySet s) := by
  have helement : ∀ name ∈ s.toList.map v.elementName, Unbroken name := by
    intro name hname
    obtain ⟨ty, -, rfl⟩ := List.mem_map.mp hname
    unfold elementName
    split
    · decide
    · exact h ty
  unfold displaySet
  split
  · rename_i name hname
    exact helement name (hname ▸ List.mem_singleton_self name)
  · exact (Text.Unbroken.append (by decide) (Text.Unbroken.intercalate (by decide) helement)).append (by decide)

/-- **A type is shown on one line**, if no name has a line break: a type without a name is shown as a number. -/
theorem Vocabulary.unbroken_displayName {v : Vocabulary}
    (h : ∀ names ∈ v.named, ∀ name ∈ names.literal.toList ++ names.symbolic.toList, Unbroken name) (ty : TokenType) :
    Unbroken (v.displayName ty) := by
  have hnames : ∀ names, v.names? ty = some names →
      ∀ name ∈ names.literal.toList ++ names.symbolic.toList, Unbroken name := by
    intro names hnames
    unfold names? at hnames
    split at hnames
    · cases hnames
      decide
    · exact h names (Array.mem_of_getElem? hnames)
  unfold displayName
  -- The literal name comes first, then the symbolic one, then the number.
  cases hliteral : v.literalName? ty with
  | some name =>
      obtain ⟨names, hfound, hname⟩ := Option.bind_eq_some_iff.mp hliteral
      exact hnames names hfound name (by simp [hname])
  | none =>
      cases hsymbolic : v.symbolicName? ty with
      | none => exact Text.unbroken_toString _
      | some name =>
          unfold symbolicName? at hsymbolic
          split at hsymbolic
          · cases hsymbolic
            exact (by decide : Unbroken "EOF")
          · obtain ⟨names, hfound, hname⟩ := Option.bind_eq_some_iff.mp hsymbolic
            exact hnames names hfound name (by simp [hname])

namespace Language.Unbroken

variable {l : Language}

/-- A rule is shown on one line. -/
theorem ruleNameOrUnknown (h : l.Unbroken) (r : RuleIndex) : Text.Unbroken (l.ruleNameOrUnknown r) := by
  unfold Language.ruleNameOrUnknown Language.ruleName?
  cases hr : l.rules[r.toNat]? with
  | none => decide
  | some rule =>
      obtain ⟨hlt, rfl⟩ := Array.getElem?_eq_some_iff.mp hr
      exact h.rules _ (List.mem_map_of_mem (Array.mem_toList_iff.mpr (Array.getElem_mem hlt)))

/-- **The text of a token that is made up** is one line. -/
theorem missingText (h : l.Unbroken) (ty : TokenType) : OneLine (Parser.missingText l.vocabulary ty) := by
  unfold Parser.missingText
  split
  · exact ⟨by decide, by decide⟩
  · refine OneLine.append (OneLine.append ⟨by decide, by decide⟩ ?_) (by decide)
    exact h.types ty

end Language.Unbroken

/-- **An exception whose own text is free of line breaks**: the condition that was not met, if it is one. -/
def RecognitionException.Unbroken (e : RecognitionException) : Prop :=
  ∀ text, e.kind = .failedPredicate text → Text.Unbroken text

namespace Parser

variable {σ α β : Type} {p q : Parser σ}

/-- **What is reported of an exception** is one line. -/
theorem oneLine_exceptionMessage (hp : p.language.Unbroken) {e : RecognitionException} (he : e.Unbroken) :
    OneLine (p.exceptionMessage e) := by
  unfold exceptionMessage
  cases hkind : e.kind with
  | noViableAlt start => exact OneLine.append ⟨by decide, by decide⟩ (Text.unbroken_shown _)
  | inputMismatch =>
      refine OneLine.append (OneLine.append (OneLine.append ⟨by decide, by decide⟩ (Text.unbroken_shown _)) ?_) ?_
      · decide
      · exact Vocabulary.unbroken_displaySet hp.types _
  | failedPredicate text =>
      refine OneLine.append (OneLine.append (OneLine.append (OneLine.append ⟨by decide, by decide⟩ ?_) ?_) ?_) ?_
      · exact hp.ruleNameOrUnknown _
      · decide
      · exact he text hkind
      · decide

/-- What is reported of a token that is one too many is one line. -/
theorem oneLine_extraneous (hp : p.language.Unbroken) (t : Token) (expecting : TokenSet) :
    OneLine s!"extraneous input {t.shown} expecting {p.language.vocabulary.displaySet expecting}" := by
  refine OneLine.append (OneLine.append (OneLine.append ⟨by decide, by decide⟩ (Text.unbroken_shown _)) ?_) ?_
  · decide
  · exact Vocabulary.unbroken_displaySet hp.types _

/-- What is reported of a token that is missing is one line. -/
theorem oneLine_missing (hp : p.language.Unbroken) (t : Token) (expecting : TokenSet) :
    OneLine s!"missing {p.language.vocabulary.displaySet expecting} at {t.shown}" := by
  refine OneLine.append (OneLine.append (OneLine.append ⟨by decide, by decide⟩ ?_) ?_) (Text.unbroken_shown _)
  · exact Vocabulary.unbroken_displaySet hp.types _
  · decide

/-! ## What has been said so far -/

/-- **All that a parse has said so far is one line each**, and what it goes by will not break lines either. -/
structure Worded (p : Parser σ) : Prop where
  /-- The names in messages are free of line breaks. -/
  names : p.language.Unbroken
  /-- No token of the input is made up. -/
  numbered : p.input.Numbered
  /-- Each report is one line. -/
  reports : ∀ r ∈ p.reports, OneLine r.message
  /-- The text of each error leaf that was made up is one line. -/
  leaves : ∀ t, (false, t) ∈ p.tree.leaves → t.isConjured = true → OneLine t.text

namespace Worded

/-- Nothing more has been said. -/
theorem silent (hp : p.Worded) (hlanguage : q.language = p.language) (hnumbered : q.input.Numbered)
    (hreports : q.reports = p.reports) (hleaves : q.tree.leaves = p.tree.leaves) : q.Worded :=
  ⟨hlanguage ▸ hp.names, hnumbered, hreports ▸ hp.reports, hleaves ▸ hp.leaves⟩

/-- Something else is kept in mind. -/
theorem recovering (hp : p.Worded) (recovery : RecoveryState) : Worded { p with recovery } :=
  hp.silent rfl hp.numbered rfl rfl

/-- Other things are active. -/
theorem activated (hp : p.Worded) (frames : List Frame) (follow : List TokenSet) (speculating : Nat) :
    Worded { p with frames, follow, speculating } :=
  hp.silent rfl hp.numbered rfl rfl

/-- A leaf is added: an error leaf that is made up has to be one line. -/
theorem addLeaf (hp : p.Worded) (parent : Option Nat) (leaf : ParseNode)
    (hleaf : ∀ t, leaf = .error t → t.isConjured = true → OneLine t.text) :
    Worded { p with tree := (p.tree.push parent leaf).2 } := by
  refine ⟨hp.names, hp.numbered, hp.reports, fun t ht hconjured => ?_⟩
  rw [ParseTree.leaves_push] at ht
  rcases List.mem_append.mp ht with ht | ht
  · exact hp.leaves t ht hconjured
  · cases leaf with
    | rule r => cases ht
    | terminal u => simp [ParseNode.leaf?] at ht
    | error u =>
        simp only [ParseNode.leaf?, Option.toList_some, List.mem_singleton, Prod.mk.injEq, true_and] at ht
        exact hleaf t (by rw [ht]) hconjured

/-- A report is added, which has to be one line. -/
theorem report (hp : p.Worded) {r : Report} (hr : OneLine r.message) (listeners errors : Nat) :
    Worded { p with syntaxErrors := errors, journal := p.journal.push (.report listeners r) } := by
  refine ⟨hp.names, hp.numbered, fun r' hr' => ?_, hp.leaves⟩
  simp only [Parser.reports, Array.toList_push, List.filterMap_append] at hr'
  rcases List.mem_append.mp hr' with hr' | hr'
  · exact hp.reports r' hr'
  · obtain rfl : r' = r := by simpa [Note.report?] using hr'
    exact hr

/-- Something other than a report is written down. -/
theorem note (hp : p.Worded) {n : Note} (hn : n.report? = none) :
    Worded { p with journal := p.journal.push n } := by
  refine hp.silent rfl hp.numbered ?_ rfl
  simp [Parser.reports, hn]

end Worded

/-- **An end that breaks no line**: an answer is as it is wanted, and an exception states its condition without line
breaks. -/
def Fine (good : α → Prop) : Except Interrupt α → Prop
  | .ok a => good a
  | .error (.recognition e) => e.Unbroken
  | .error (.abort _) => True

/-- A failure is handed on. -/
theorem Fine.handed_on {good : α → Prop} {good' : β → Prop} {i : Interrupt} (h : Fine good (.error i)) :
    Fine good' (.error i) :=
  match i, h with
  | .recognition _, h => h
  | .abort _, _ => trivial

/-- **An action leaves all that is said one line each**, and ends in a way that breaks no line. -/
def Words (x : ParserM σ α) (p : Parser σ) (good : α → Prop) : Prop := Ends x p fun o q => q.Worded ∧ Fine good o

namespace Words

variable {x : ParserM σ α} {good : α → Prop} {good' : β → Prop}

/-- An answer that is wanted stays so when less is wanted. -/
theorem mono {good' : α → Prop} (h : Words x p good) (himp : ∀ a, good a → good' a) : Words x p good' :=
  Ends.mono h fun o _ ho => ⟨ho.1, match o, ho.2 with
    | .ok a, hgood => himp a hgood
    | .error _, hfine => hfine.handed_on⟩

/-- One action after the other. -/
theorem bind {f : α → ParserM σ β} (h : Words x p good) (hf : ∀ a q, q.Worded → good a → Words (f a) q good') :
    Words (x >>= f) p good' :=
  Ends.bind h (fun a q hq => hf a q hq.1 hq.2) fun _ _ hq => ⟨hq.1, hq.2.handed_on⟩

/-- What comes after an observed action. -/
theorem observe_bind {f : Except Interrupt α → ParserM σ β} (h : Words x p good)
    (hf : ∀ o q, q.Worded → Fine good o → Words (f o) q good') : Words (observe x >>= f) p good' :=
  ends_observe_bind h fun o q hq => hf o q hq.1 hq.2

/-- An answer. -/
theorem of_pure (hp : p.Worded) {a : α} (ha : good a) : Words (pure a) p good := ⟨hp, ha⟩

/-- The whole parse is given up. -/
theorem of_giveUp (hp : p.Worded) (a : Abort) : Words (giveUp a) p good := ⟨hp, trivial⟩

/-- The state is looked at. -/
theorem of_get {f : Parser σ → ParserM σ β} (h : Words (f p) p good') : Words (get >>= f) p good' := h

/-- The state is changed. -/
theorem of_modify {g : Parser σ → Parser σ} {f : PUnit → ParserM σ β} (h : Words (f ⟨⟩) (g p) good') :
    Words (modify g >>= f) p good' := h

/-- An end is handed on. -/
theorem of_release (hp : p.Worded) {o : Except Interrupt α} (ho : Fine good o) : Words (release o) p good :=
  (ends_release o).mpr ⟨hp, ho⟩

/-- An answer that only a broken contract can keep from being given. -/
theorem orBroken_bind {answer : Except Violation α} {f : α → ParserM σ β} (hp : p.Worded)
    (hf : ∀ a, Words (f a) p good') : Words (orBroken answer >>= f) p good' := by
  cases answer with
  | ok a => exact hf a
  | error v => exact ⟨hp, trivial⟩

end Words

/-! ## Single actions -/

/-- Writing down something other than a report. -/
theorem words_note (hp : p.Worded) {n : Note} (hn : n.report? = none) : Words (note n) p fun _ => True :=
  ⟨hp.note hn, trivial⟩

/-- **Reporting something on one line.** -/
theorem words_report (hp : p.Worded) (t : Token) {message : String} (hmessage : OneLine message)
    (e : Option RecognitionException) : Words (report t message e) p fun _ => True := by
  unfold report
  change Ends (get >>= _) _ _
  rw [ends_get_bind, ends_set_bind]
  by_cases hlisteners : 0 < p.listeners
  · rw [if_pos hlisteners]
    exact ⟨hp.report hmessage _ _, trivial⟩
  · rw [if_neg hlisteners]
    exact ⟨hp.silent rfl hp.numbered rfl rfl, trivial⟩

/-- Adding an error leaf, which has to be one line if it is made up. -/
theorem words_addErrorLeaf (hp : p.Worded) {t : Token} (ht : t.isConjured = true → OneLine t.text) :
    Words (addErrorLeaf t) p fun _ => True := by
  refine .of_get ?_
  cases p.isSpeculating with
  | true => exact .of_pure hp trivial
  | false =>
      refine ⟨hp.addLeaf _ _ ?_, trivial⟩
      rintro _ ⟨⟩
      exact ht

/-- A hook leaves things so, if its work does. -/
theorem words_hooked {h : Hook} {denied act : ParserM σ α} {good : α → Prop} (hp : p.Worded)
    (hdenied : ∀ q : Parser σ, q.Worded → Words denied q good) (hact : ∀ q : Parser σ, q.Worded → Words act q good) :
    Words (hooked h denied act) p good := by
  have hchoice : ∀ q : Parser σ, q.Worded → Words (if p.strategy.allows h then act else denied) q good := by
    intro q hq
    split
    · exact hact q hq
    · exact hdenied q hq
  refine .of_get ?_
  by_cases hnoted : p.strategy.noted = true
  · simp only [hnoted, if_true]
    exact (words_note hp (n := .hook h) rfl).bind fun _ q hq _ => hchoice q hq
  · simp only [hnoted, if_false, Bool.false_eq_true]
    exact hchoice p hp

/-- A hook that answers nothing, and does nothing when it is denied. -/
theorem words_hooked_unit {h : Hook} {act : ParserM σ Unit} (hp : p.Worded)
    (hact : ∀ q : Parser σ, q.Worded → Words act q fun _ => True) :
    Words (hooked h (pure ()) act) p fun _ => True :=
  words_hooked hp (fun _ hq => .of_pure hq trivial) hact

/-- A hook that does the same when it is denied. -/
theorem words_hooked_same {h : Hook} {act : ParserM σ α} {good : α → Prop} (hp : p.Worded)
    (hact : ∀ q : Parser σ, q.Worded → Words act q good) : Words (hooked h act act) p good :=
  words_hooked hp hact hact

/-- Holding reports back. -/
theorem words_beginErrorCondition (hp : p.Worded) : Words beginErrorCondition p fun _ => True :=
  words_hooked_unit hp fun _ hq => ⟨hq.recovering _, trivial⟩

/-- No longer holding reports back. -/
theorem words_reportMatch (hp : p.Worded) : Words reportMatch p fun _ => True :=
  words_hooked_unit hp fun _ hq => ⟨hq.recovering _, trivial⟩

/-- **Reporting the exception of a failed rule.** -/
theorem words_reportError (hp : p.Worded) {e : RecognitionException} (he : e.Unbroken) :
    Words (reportError e) p fun _ => True := by
  refine words_hooked_unit hp fun q hq => .of_get ?_
  cases q.recovery.inRecovery with
  | true => exact .of_pure hq trivial
  | false =>
      refine (words_beginErrorCondition hq).bind fun _ r hr _ => .of_get ?_
      exact words_report hr _ (oneLine_exceptionMessage hr.names he) _

/-- An operation of the input. -/
theorem words_onInput (hp : p.Worded) {act : StreamM σ α} {good : α → Prop}
    (hnumbered : Ends act p.input fun _ s => s.Numbered) (hgood : Answers act p.input fun a _ => good a) :
    Words (onInput act) p good :=
  ends_onInput ((hnumbered.and hgood).mono fun o _ ho => match o, ho with
    | .ok a, ⟨hs, ha⟩ => ⟨hp.silent rfl hs rfl rfl, ha a rfl⟩
    | .error _, ⟨hs, _⟩ => ⟨hp.silent rfl hs rfl rfl, trivial⟩)

variable [TokenSource σ]

/-- **Looking ahead** finds no token that is made up. -/
theorem words_ahead (hp : p.Worded) (k : Nat) : Words (ahead k) p fun t => t.isConjured = false :=
  words_onInput hp (Stream.stable_numbered.ahead k hp.numbered) (hp.numbered.answers_ahead k)

/-- Looking at the flag. -/
theorem words_checkCancelled (hp : p.Worded) : Words checkCancelled p fun _ => True :=
  (ends_checkCancelled_idle p).mono fun o _ ho => ⟨ho.1 ▸ hp, match o, ho.2 with
    | .ok _, _ => trivial
    | .error (.recognition e), hno => absurd rfl (hno e)
    | .error (.abort _), _ => trivial⟩

/-- **Consuming a token**, which is not made up. -/
theorem words_consume (hp : p.Worded) : Words consume p fun t => t.isConjured = false := by
  refine (words_ahead hp 1).bind fun t q hq ht => ?_
  have hpass : Words (onInput Stream.consume) q fun _ => True :=
    words_onInput hq (Stream.stable_numbered.consume hq.numbered) ((Ends.self _ _).mono fun _ _ _ _ _ => trivial)
  refine hpass.bind fun _ r hr _ => .of_get ?_
  by_cases htrial : r.isSpeculating = true
  · simp only [htrial, if_true]
    exact .of_pure hr ht
  · simp only [htrial, if_false, Bool.false_eq_true]
    refine ⟨hr.addLeaf _ _ fun u hu hconjured => ?_, ht⟩
    cases hrecovery : r.recovery.inRecovery with
    | true =>
        rw [hrecovery] at hu
        cases hu
        exact absurd (ht.symm.trans hconjured) Bool.false_ne_true
    | false =>
        rw [hrecovery] at hu
        cases hu

omit [TokenSource σ] in
/-- Failing with a new exception, which has to state its condition without line breaks. -/
theorem words_fail (hp : p.Worded) {kind : ExceptionKind} (hkind : ∀ text, kind = .failedPredicate text → Unbroken text)
    (offending : Token) (expected : TokenSet) {good : α → Prop} :
    Words (do throw (.recognition (← newException kind offending expected))) p good :=
  ⟨hp.silent rfl hp.numbered rfl rfl, hkind⟩

/-- Failing because of the current token. -/
theorem words_raiseMismatch (hp : p.Worded) (expected : TokenSet) {good : α → Prop} :
    Words (raiseMismatch expected) p good :=
  (words_ahead hp 1).bind fun t _ hq _ => words_fail hq (by rintro _ ⟨⟩) t expected

/-- Failing because no alternative fits. -/
theorem words_raiseNoViableAlt (hp : p.Worded) (depth : Nat) {good : α → Prop} :
    Words (raiseNoViableAlt depth) p good :=
  (words_ahead hp 1).bind fun _ _ hq _ => (words_ahead hq _).bind fun t _ hr _ =>
    words_fail hr (by rintro _ ⟨⟩) t ∅

/-- **Failing unless a condition holds** that is stated without line breaks. -/
theorem words_require (hp : p.Worded) (holds : Bool) {text : String} (htext : Unbroken text) :
    Words (require holds text) p fun _ => True := by
  cases holds with
  | true => exact .of_pure hp trivial
  | false =>
      refine (words_ahead hp 1).bind fun t q hq _ => words_fail hq ?_ t ∅
      rintro _ ⟨⟩
      exact htext

/-! ## Recovery -/

/-- Consuming until a token of a set comes. -/
theorem words_consumeUntil (hp : p.Worded) (set : TokenSet) (n : Nat) :
    Words (consumeUntil set n) p fun _ => True := by
  induction n generalizing p with
  | zero => exact .of_giveUp hp _
  | succ n ih =>
      unfold consumeUntil
      refine (words_ahead hp 1).bind fun t q hq _ => ?_
      split
      · exact .of_pure hq trivial
      · exact (words_consume hq).bind fun _ r hr _ => ih hr

/-- Passing over tokens. -/
theorem words_skipTo (hp : p.Worded) (set : TokenSet) : Words (skipTo set) p fun _ => True := by
  have hsearch : ∀ q : Parser σ, q.Worded → Words (do consumeUntil set ((← get).remaining + 1)) q fun _ => True :=
    fun q hq => .of_get (words_consumeUntil hq set _)
  refine words_hooked_unit hp fun q hq => .of_get ?_
  cases q.strategy.anchoring with
  | false => exact hsearch q hq
  | true =>
      refine (words_ahead hq 1).bind fun t r hr ht => ?_
      by_cases heof : t.isEof = true
      · rw [if_pos heof]
        have hanchor : t.isConjured = true → OneLine t.text := fun h => absurd (ht.symm.trans h) Bool.false_ne_true
        exact (words_addErrorLeaf hr hanchor).bind fun _ u hu _ => hsearch u hu
      · rw [if_neg heof]
        exact hsearch r hr

/-- Bringing the input to where a caller of a failed rule can go on. -/
theorem words_recover (hp : p.Worded) (e : RecognitionException) : Words (recover e) p fun _ => True := by
  have hresume : ∀ (rule : Option RuleIndex) (q : Parser σ), q.Worded → Words (do
      modify fun p => { p with
        recovery.lastErrorIndex := some p.index
        recovery.lastErrorRules := p.recovery.lastErrorRules ++ rule.toList }
      skipTo (← get).recoverySet) q fun _ => True :=
    fun rule q hq => .of_modify (.of_get (words_skipTo (hq.recovering _) _))
  refine words_hooked_unit hp fun q hq => .of_get ?_
  by_cases hstalled : (q.recovery.lastErrorIndex == some q.index &&
    q.currentRule?.any q.recovery.lastErrorRules.contains) = true
  · simp only [hstalled, if_true]
    exact (words_consume hq).bind fun _ r hr _ => hresume _ r hr
  · simp only [hstalled, if_false, Bool.false_eq_true]
    exact hresume _ q hq

/-- **Reporting the current token**, unless reports are held back. -/
theorem words_reportToken (hp : p.Worded) (message : Parser σ → Token → String)
    (hmessage : ∀ q : Parser σ, q.Worded → ∀ t, OneLine (message q t)) :
    Words (do
      unless (← get).recovery.inRecovery do
        beginErrorCondition
        let t ← ahead 1
        let p ← get
        report t (message p t) none) p fun _ => True := by
  refine .of_get ?_
  cases p.recovery.inRecovery with
  | true => exact .of_pure hp trivial
  | false =>
      refine (words_beginErrorCondition hp).bind fun _ q hq _ => (words_ahead hq 1).bind fun t r hr _ => .of_get ?_
      exact words_report hr t (hmessage r hr t) none

/-- Reporting the current token as one too many. -/
theorem words_reportUnwanted (hp : p.Worded) (expecting : TokenSet) :
    Words (reportUnwanted expecting) p fun _ => True :=
  words_hooked_unit hp fun _ hq => words_reportToken hq
    (fun p t => s!"extraneous input {t.shown} expecting {p.language.vocabulary.displaySet (p.viableFollow expecting)}")
    fun _ hr t => oneLine_extraneous hr.names t _

/-- Reporting a token as missing. -/
theorem words_reportMissing (hp : p.Worded) (expecting : TokenSet) :
    Words (reportMissing expecting) p fun _ => True :=
  words_hooked_unit hp fun _ hq => words_reportToken hq
    (fun p t => s!"missing {p.language.vocabulary.displaySet (p.viableFollow expecting)} at {t.shown}")
    fun _ hr t => oneLine_missing hr.names t _

/-- Dropping a token.  What comes after it is not made up. -/
theorem words_singleTokenDeletion (hp : p.Worded) (expected : TokenType) :
    Words (singleTokenDeletion expected) p fun matched => ∀ t, matched = some t → t.isConjured = false := by
  refine words_hooked hp (fun _ hq => .of_pure hq nofun) fun q hq => (words_ahead hq 2).bind fun t r hr _ => ?_
  by_cases hty : (t.ty != expected) = true
  · simp only [hty, if_true]
    exact .of_pure hr nofun
  · simp only [hty, if_false, Bool.false_eq_true]
    refine .orBroken_bind hr fun set => (words_reportUnwanted hr set).bind fun _ u hu _ => ?_
    refine (words_consume hu).bind fun _ v hv _ => (words_ahead hv 1).bind fun matched w hw hmatched => ?_
    refine (words_reportMatch hw).bind fun _ z hz _ => .of_pure hz ?_
    rintro _ ⟨⟩
    exact hmatched

/-- Seeing whether a token is missing. -/
theorem words_singleTokenInsertion (hp : p.Worded) (expected : TokenType) (follow : TokenSet) :
    Words (singleTokenInsertion expected follow) p fun _ => True := by
  refine words_hooked hp (fun _ hq => .of_pure hq trivial) fun q hq => ?_
  refine (words_ahead hq 1).bind fun t r hr _ => .of_get ?_
  split
  · exact .of_pure hr trivial
  · exact .orBroken_bind hr fun set => (words_reportMissing hr set).bind fun _ u hu _ => .of_pure hu trivial

/-- **Making up a token**, whose text is one line. -/
theorem words_missingSymbol (hp : p.Worded) (expected : TokenType) :
    Words (missingSymbol expected) p fun t => OneLine t.text := by
  refine words_hooked_same hp fun q hq => (words_ahead hq 1).bind fun current r hr _ => .of_get ?_
  have hmade := hr.names.missingText expected
  by_cases hanchor : (!r.strategy.anchoring) = true
  · simp only [hanchor, if_true]
    exact .of_pure hr hmade
  · simp only [hanchor]
    exact (words_ahead hr 1).bind fun _ u hu _ => .of_pure hu hmade

/-- **Mending the lack of a token.** If the answer is made up, its text is one line. -/
theorem words_recoverInline (hp : p.Worded) (expected : TokenType) (follow : TokenSet) :
    Words (recoverInline expected follow) p fun t => t.isConjured = true → OneLine t.text := by
  have hmismatch : ∀ q : Parser σ, q.Worded → Words (do raiseMismatch (← orBroken (TokenSet.single? expected))) q
      fun t : Token => t.isConjured = true → OneLine t.text :=
    fun q hq => .orBroken_bind hq fun set => words_raiseMismatch hq set
  refine words_hooked hp hmismatch fun q hq => (words_singleTokenDeletion hq expected).bind ?_
  rintro (_ | matched) r hr hmatched
  · refine (words_singleTokenInsertion hr expected follow).bind fun missing u hu _ => ?_
    cases missing with
    | true => exact (words_missingSymbol hu expected).mono fun _ ht _ => ht
    | false => exact hmismatch u hu
  · refine (words_consume hr).bind fun _ u hu _ => .of_pure hu fun hconjured => ?_
    exact absurd ((hmatched _ rfl).symm.trans hconjured) Bool.false_ne_true

/-- Guarding a loop. -/
theorem words_syncHook (hp : p.Worded) (expecting : TokenSet) : Words (syncHook expecting) p fun _ => True := by
  refine words_hooked_unit hp fun q hq => .of_get ?_
  cases q.recovery.inRecovery with
  | true => exact .of_pure hq trivial
  | false =>
      refine (words_ahead hq 1).bind fun t r hr _ => ?_
      by_cases hfits : (expecting.contains t.ty || expecting.endOfRule) = true
      · simp only [hfits, if_true]
        exact .of_pure hr trivial
      · simp only [hfits, if_false, Bool.false_eq_true]
        exact (words_reportUnwanted hr expecting).bind fun _ u hu _ => .of_get (words_skipTo hu _)

/-! ## Operations -/

/-- **Entering a rule.** -/
theorem words_enterRule (hp : p.Worded) (r : RuleIndex) : Words (enterRule r) p fun _ => True := by
  refine (words_checkCancelled hp).bind fun _ q hq _ => .of_get ?_
  by_cases hlimit : q.recursionLimit.any (· ≤ q.frames.length) = true
  · rw [if_pos hlimit]
    exact .of_giveUp hq _
  · rw [if_neg hlimit]
    by_cases htrial : q.isSpeculating = true
    · simp only [htrial, if_true]
      exact ⟨hq.activated _ _ _, trivial⟩
    · simp only [htrial, if_false, Bool.false_eq_true]
      refine (words_ahead hq 1).bind fun start u hu _ => ?_
      have hpushed := hu.addLeaf u.currentNode? (.rule { rule := r, start := start.index }) (by rintro _ ⟨⟩)
      exact ⟨hpushed.activated _ _ _, trivial⟩

/-- **Leaving a rule.** -/
theorem words_exitRule (hp : p.Worded) : Words exitRule p fun _ => True := by
  refine .of_get ?_
  cases p.frames with
  | nil => exact .of_giveUp hp _
  | cons frame frames =>
      refine .of_modify ?_
      cases frame.node with
      | none => exact words_checkCancelled (hp.activated _ _ _)
      | some node =>
          refine .of_modify (words_checkCancelled (hp.silent rfl hp.numbered rfl ?_))
          exact ParseTree.leaves_modifyRule _ _ _

/-- Leaving a rule, and handing on how its body has ended. -/
theorem words_leave (hp : p.Worded) {o : Except Interrupt Unit} (ho : Fine (fun _ => True) o) : Words (do
    let exited ← observe exitRule
    release o
    release exited) p fun _ => True :=
  (words_exitRule hp).observe_bind fun _ _ hq hexited =>
    (Words.of_release hq ho).bind fun _ _ hr _ => .of_release hr hexited

/-- **Going on after the failure of a rule's body.** -/
theorem words_handleRecognition (hp : p.Worded) {e : RecognitionException} (he : e.Unbroken) :
    Words (handleRecognition e) p fun _ => True := by
  have hrest : ∀ q : Parser σ, q.Worded → Words (reportError e >>= fun _ => recover e) q fun _ => True :=
    fun q hq => (words_reportError hq he).bind fun _ r hr _ => words_recover hr e
  refine .of_modify (hrest _ ?_)
  cases p.currentNode? with
  | none => exact hp
  | some node => exact hp.silent rfl hp.numbered rfl (ParseTree.leaves_modifyRule _ _ _)

/-- **Running a body as a rule.** -/
theorem words_rule (hp : p.Worded) {r : RuleIndex} {body : ParserM σ Unit}
    (hbody : ∀ q : Parser σ, q.Worded → Words body q fun _ => True) : Words (rule r body) p fun _ => True := by
  refine (words_enterRule hp r).bind fun _ q hq _ => (hbody q hq).observe_bind fun o u hu ho => ?_
  match o, ho with
  | .ok _, _ => exact words_leave hu trivial
  | .error (.abort _), _ => exact words_leave hu trivial
  | .error (.recognition e), he =>
      refine .of_get ?_
      by_cases htrial : u.isSpeculating = true
      · rw [if_pos htrial]
        exact words_leave hu he
      · rw [if_neg htrial]
        exact (words_handleRecognition hu he).observe_bind fun _ v hv ho' => words_leave hv ho'

omit [TokenSource σ] in
/-- **Running a body that something may follow.** -/
theorem words_invoke (hp : p.Worded) {follow : TokenSet} {body : ParserM σ α}
    (hbody : ∀ q : Parser σ, q.Worded → Words body q fun _ => True) : Words (invoke follow body) p fun _ => True := by
  refine .of_modify ((hbody _ (hp.activated _ (follow :: p.follow) _)).observe_bind fun o q hq ho => .of_modify ?_)
  exact .of_release (hq.activated _ _ _) ho

/-- **Matching a token**, or making it up. -/
theorem words_expect (hp : p.Worded) (ty : TokenType) (follow : TokenSet) :
    Words (expect ty follow) p fun _ => True := by
  refine (words_ahead hp 1).bind fun t q hq _ => ?_
  -- A token that is there is consumed, and one that is not is made up, unless a trial is under way.
  by_cases hty : (t.ty == ty) = true
  · simp only [hty, if_true]
    refine .of_get ?_
    by_cases htrial : q.isSpeculating = true
    · simp only [htrial, if_true]
      exact (words_consume hq).mono fun _ _ => trivial
    · simp only [htrial, if_false, Bool.false_eq_true]
      exact (words_reportMatch hq).bind fun _ r hr _ => (words_consume hr).mono fun _ _ => trivial
  · simp only [hty, if_false, Bool.false_eq_true]
    refine .of_get ?_
    by_cases htrial : q.isSpeculating = true
    · simp only [htrial, if_true]
      exact .orBroken_bind hq fun set => words_raiseMismatch hq set
    · simp only [htrial, if_false, Bool.false_eq_true]
      refine (words_recoverInline hq ty follow).bind fun mended r hr hmended => ?_
      by_cases hconjured : mended.isConjured = true
      · simp only [hconjured, if_true]
        exact (words_addErrorLeaf hr hmended).bind fun _ u hu _ => .of_pure hu trivial
      · simp only [hconjured, if_false, Bool.false_eq_true]
        exact .of_pure hr trivial

/-- Guarding a loop. -/
theorem words_sync (hp : p.Worded) (expecting : TokenSet) : Words (sync expecting) p fun _ => True := by
  refine .of_get ?_
  cases p.isSpeculating with
  | true => exact .of_pure hp trivial
  | false => exact words_syncHook hp expecting

/-- **Trying a body.** -/
theorem words_speculate (hp : p.Worded) {body : ParserM σ Unit}
    (hbody : ∀ q : Parser σ, q.Worded → Words body q fun _ => True) : Words (speculate body) p fun _ => True := by
  refine (words_ahead hp 1).bind fun _ q hq _ => .of_get (.of_modify ?_)
  refine (hbody _ (hq.activated _ _ (q.speculating + 1))).observe_bind fun o r hr _ => .of_modify ?_
  have hback : ∀ u : Parser σ, u.Worded → Words (onInput (Stream.seek q.index)) u fun _ => True := fun u hu =>
    words_onInput hu (Stream.stable_numbered.seek _ hu.numbered) ((Ends.self _ _).mono fun _ _ _ _ _ => trivial)
  refine (hback _ (hr.activated _ _ _)).bind fun _ u hu _ => ?_
  match o with
  | .ok () => exact .of_pure hu trivial
  | .error (.recognition _) => exact .of_pure hu trivial
  | .error (.abort a) => exact .of_giveUp hu a

omit [TokenSource σ] in
/-- **Running a body for its exception.** -/
theorem words_attempt (hp : p.Worded) {body : ParserM σ α}
    (hbody : ∀ q : Parser σ, q.Worded → Words body q fun _ => True) : Words (attempt body) p fun _ => True := by
  refine (hbody p hp).observe_bind fun o q hq _ => ?_
  match o with
  | .ok _ => exact .of_pure hq trivial
  | .error (.recognition _) => exact .of_pure hq trivial
  | .error (.abort a) => exact .of_giveUp hq a

end Parser

/-- **An operation that states its condition without line breaks**, if it has one. -/
def Operation.Unbroken {β : Type} : Operation β → Prop
  | .require _ text => Text.Unbroken text
  | _ => True

/-- **A recognizer that states its conditions without line breaks.** -/
def Recognizer.Unbroken {α : Type} : Recognizer α → Prop
  | .pure _ => True
  | .outOfSteps => True
  | .step op next => op.Unbroken ∧ ∀ b, (next b).Unbroken
  | .direct _ next => ∀ b, (next b).Unbroken
  | .rule _ body next => (body ()).Unbroken ∧ ∀ u, (next u).Unbroken
  | .invoke _ body next => (body ()).Unbroken ∧ ∀ b, (next b).Unbroken
  | .speculate body next => (body ()).Unbroken ∧ ∀ b, (next b).Unbroken
  | .attempt body next => (body ()).Unbroken ∧ ∀ b, (next b).Unbroken

/-- One recognizer after the other. -/
theorem Recognizer.Unbroken.bind {α β : Type} {r : Recognizer α} {f : α → Recognizer β} (h : r.Unbroken)
    (hf : ∀ a, (f a).Unbroken) : (r.bind f).Unbroken := by
  induction r with
  | pure a => exact hf a
  | outOfSteps => trivial
  | step op next ih => exact ⟨h.1, fun b => ih b (h.2 b) hf⟩
  | direct d next ih => exact fun b => ih b (h b) hf
  | rule r body next _ ih => exact ⟨h.1, fun u => ih u (h.2 u) hf⟩
  | invoke follow body next _ ih => exact ⟨h.1, fun b => ih b (h.2 b) hf⟩
  | speculate body next _ ih => exact ⟨h.1, fun b => ih b (h.2 b) hf⟩
  | attempt body next _ ih => exact ⟨h.1, fun b => ih b (h.2 b) hf⟩

open TreeProjection.Parser

variable {σ α β : Type} [TokenSource σ] {p : Parser σ}

/-- An operation leaves all that is said one line each. -/
theorem Operation.words (op : Operation β) (hop : op.Unbroken) (hp : p.Worded) : Words op.run p fun _ => True := by
  cases op with
  | ahead k => exact (words_ahead hp k).mono fun _ _ => trivial
  | expect ty follow => exact words_expect hp ty follow
  | consume => exact (words_consume hp).mono fun _ _ => trivial
  | sync expecting => exact words_sync hp expecting
  | require holds text => exact words_require hp holds hop
  | noViableAlt depth => exact words_raiseNoViableAlt hp depth
  | mismatch expected => exact words_raiseMismatch hp expected

/-- **An ordinary recognizer leaves all that is said one line each**, if it states its conditions without line
breaks. -/
theorem Recognizer.Ordinary.words {r : Recognizer α} (h : r.Ordinary) (hr : r.Unbroken) (hp : p.Worded) :
    Words r.run p fun _ => True := by
  induction r generalizing p with
  | pure a => exact .of_pure hp trivial
  | outOfSteps => exact .of_giveUp hp _
  | step op next ih => exact (op.words hr.1 hp).bind fun b q hq _ => ih b (h b) (hr.2 b) hq
  | direct d next ih => exact h.elim
  | rule r body next ihbody ihnext =>
      exact (words_rule hp fun q hq => ihbody () h.1 hr.1 hq).bind fun u q hq _ => ihnext u (h.2 u) (hr.2 u) hq
  | invoke follow body next ihbody ihnext =>
      exact (words_invoke hp fun q hq => ihbody () h.1 hr.1 hq).bind fun b q hq _ => ihnext b (h.2 b) (hr.2 b) hq
  | speculate body next ihbody ihnext =>
      exact (words_speculate hp fun q hq => ihbody () h.1 hr.1 hq).bind fun b q hq _ => ihnext b (h.2 b) (hr.2 b) hq
  | attempt body next ihbody ihnext =>
      exact (words_attempt hp fun q hq => ihbody () h.1 hr.1 hq).bind fun b q hq _ => ihnext b (h.2 b) (hr.2 b) hq

end TreeProjection
