import TreeProjection.Proofs.Collecting
import TreeProjection.Proofs.Labelling
import TreeProjection.Proofs.Silence
import TreeProjection.Proofs.Wording

/-! # Messages that are merged and split again

An error element has one text, even if it stands at a token of which several things were reported.  The reports are
merged, each on a line of its own, and whoever shows the errors splits the text into its lines.  Since each report is
one line, he finds what was merged: no report falls apart, and none is lost between two others.

* `Report.messagesAt` — what is reported at an offset; `ErrorIndex.messages_allAt` — it is found in the index.
* `ParseNode.View.messageLists` — the messages that the error elements of a tree are made of.
* `MessagesWhole` — messages that are merged in error elements, and told one by one.
* `Session.messages_whole` — the messages of a projection are. -/

namespace TreeProjection

open ParseNode (View)
open TreeProjection.Parser
open Text (OneLine)

/-! ## Reports by their places -/

/-- **What is reported at an offset**, in the order of the reports. -/
def Report.messagesAt (rs : List Report) (offset : Nat) : List String :=
  (rs.filter fun r => (SyntaxError.ofReport r).offset == offset).map Report.message

/-- **No two reports tell of one exception.** -/
def Report.Distinct (rs : List Report) : Prop := (rs.filterMap fun r => r.exception.map RecognitionException.id).Nodup

/-- **What is said of a failed rule**: the first report of its exception, if there is one. -/
def Report.failureMessage (rs : List Report) (e : RecognitionException) : String :=
  ((rs.find? (·.tellsOf e.id)).map Report.message).getD "syntax error"

/-- All reports are heeded, if no two of them tell of one exception. -/
theorem Report.heeded_eq_self {rs : List Report} (h : Report.Distinct rs) : heeded rs = rs := by
  induction rs using List.reverseRecOn with
  | nil => rfl
  | append_singleton rs r ih =>
      unfold Report.Distinct at h
      rw [List.filterMap_append, List.nodup_append] at h
      obtain ⟨hrs, -, happart⟩ := h
      -- none of the earlier reports has told of the exception
      have hnew : ¬ rs.any (tellsAgain · r) = true := by
        intro hagain
        obtain ⟨r', hr', hsame⟩ := List.any_eq_true.mp hagain
        obtain ⟨e, he, htells⟩ := (Option.any_eq_true _ _).mp hsame
        refine happart e.id (List.mem_filterMap.mpr ⟨r', hr', ?_⟩) e.id (by simp [he]) rfl
        simpa [tellsOf] using htells
      rw [heeded_append_singleton, ih hrs, if_neg hnew]

/-- **All reports are collected**, if no two of them tell of one exception. -/
theorem ErrorCollector.errors_ofReports {rs : List Report} (h : Report.Distinct rs) :
    (ofReports rs).errors.toList = rs.map SyntaxError.ofReport := by
  rw [errors_eq_heeded, Report.heeded_eq_self h]

namespace ErrorIndex

/-- **What is reported at an offset is found there.** -/
theorem messages_allAt {rs : List Report} (h : Report.Distinct rs) (o : Nat) :
    ((ofReports rs).allAt o).map SyntaxError.message = Report.messagesAt rs o := by
  rw [ofReports, allAt_ofCollector, ErrorCollector.errors_ofReports h, List.filter_map, List.map_map]
  exact List.map_congr_left fun r _ => SyntaxError.message_ofReport r

/-- The text at an offset is what is reported there, one report to a line. -/
theorem messagesAt?_ofReports {rs : List Report} (h : Report.Distinct rs) (o : Nat) :
    (ofReports rs).messagesAt? o = match Report.messagesAt rs o with
      | [] => none
      | messages => some (Text.joinLines messages) := by
  unfold messagesAt?
  rw [← messages_allAt h]
  cases (ofReports rs).allAt o <;> rfl

end ErrorIndex

section

variable {σ α : Type}

/-- What the listeners are told of mishaps tells of exceptions that have been caught. -/
theorem Mishap.told_sublist (ms : List (Mishap σ)) :
    ((ms.flatMap told).filterMap fun r => r.exception.map RecognitionException.id).Sublist
      ((ms.filterMap caught?).map RecognitionException.id) := by
  induction ms with
  | nil => exact .refl _
  | cons m ms ih =>
      cases m with
      | raised e p => exact ih
      | caught e p =>
          rw [List.flatMap_cons, List.filterMap_append,
            List.filterMap_cons_some (show caught? (caught e p) = some e from rfl), List.map_cons]
          change ((p.told e).filterMap _ ++ _).Sublist _
          unfold Parser.told
          split
          · exact ih.cons _
          · exact ih.cons_cons _

/-- **No two reports of a parse tell of one exception**, since no two failures of its rules have one number. -/
theorem Parser.Attested.distinct {p q : Parser σ} {ms : List (Mishap σ)} {a : α} {v : View} {rs : List Report}
    (h : Attested p ms (.ok a) [v] rs q) : Report.Distinct rs := by
  have hcaught : ((ms.filterMap Mishap.caught?).map RecognitionException.id).Nodup :=
    (h.failuresKept.marked.map _).nodup_iff.mp h.failuresKept.distinct
  have htold : (rs.filterMap fun r => r.exception.map RecognitionException.id) =
      (rs.filter (·.exception.isSome)).filterMap fun r => r.exception.map RecognitionException.id := by
    rw [List.filterMap_filter]
    refine List.filterMap_congr fun r _ => ?_
    cases r.exception <;> rfl
  unfold Report.Distinct
  rw [htold, h.told]
  exact (Mishap.told_sublist ms).nodup hcaught

end

/-! ## What error elements are made of -/

namespace ParseNode.View

/-- **The messages that the error element of an error leaf is made of**, if it has one, and the offsets whose reports
have been placed after it.  A token that was made up has its own text; another token has what is reported at its offset,
unless that has been placed. -/
def leafMessages (rs : List Report) (spent : List Nat) (t : Token) : List (List String) × List Nat :=
  if t.isConjured then ([[t.text]], spent)
  else
    let offset := t.start?.getD 0
    match if spent.contains offset then [] else Report.messagesAt rs offset with
    | [] => ([], spent)
    | messages => ([messages], offset :: spent)

mutual

/-- **The messages that the error elements of a tree are made of**, each element before those inside it, and the offsets
whose reports have been placed after it.  A rule that has failed has what is said of it. -/
def messageLists (rs : List Report) (spent : List Nat) : View → List (List String) × List Nat
  | .rule r children =>
    let inside := messageListsOf rs spent children
    match r.exception with
    | some e => ([Report.failureMessage rs e] :: inside.1, inside.2)
    | none => inside
  | .terminal _ => ([], spent)
  | .error t => leafMessages rs spent t

/-- The messages that the error elements of several trees are made of. -/
def messageListsOf (rs : List Report) (spent : List Nat) : List View → List (List String) × List Nat
  | [] => ([], spent)
  | v :: rest =>
    let first := messageLists rs spent v
    let others := messageListsOf rs first.2 rest
    (first.1 ++ others.1, others.2)

end

variable {rs : List Report}

/-- The messages of a leaf are one line each, if the reports are, and the leaf if it was made up. -/
theorem oneLine_leafMessages (hrs : ∀ r ∈ rs, OneLine r.message) {t : Token}
    (ht : t.isConjured = true → OneLine t.text) (spent : List Nat) :
    ∀ messages ∈ (leafMessages rs spent t).1, messages ≠ [] ∧ ∀ m ∈ messages, OneLine m := by
  unfold leafMessages
  by_cases hconjured : t.isConjured = true
  · simpa [hconjured] using ht hconjured
  · simp only [hconjured, if_false, Bool.false_eq_true]
    split
    · simp
    · rename_i hne
      intro messages hmessages
      rw [List.mem_singleton.mp hmessages]
      refine ⟨hne, fun m hm => ?_⟩
      split at hm
      · cases hm
      · obtain ⟨r, hr, rfl⟩ := List.mem_map.mp hm
        exact hrs r (List.mem_filter.mp hr).1

/-- What is said of a failed rule is one line, if the reports are. -/
theorem oneLine_failureMessage (hrs : ∀ r ∈ rs, OneLine r.message) (e : RecognitionException) :
    OneLine (Report.failureMessage rs e) := by
  unfold Report.failureMessage
  cases hfind : rs.find? (·.tellsOf e.id) with
  | none => exact ⟨by decide, by decide⟩
  | some r => exact hrs r (List.mem_of_find?_eq_some hfind)

mutual

/-- **The messages of error elements are one line each**, if the reports are, and the leaves that were made up. -/
theorem oneLine_messageLists (hrs : ∀ r ∈ rs, OneLine r.message) : ∀ (v : View) (spent : List Nat),
    (∀ t, (false, t) ∈ v.leaves → t.isConjured = true → OneLine t.text) →
    ∀ messages ∈ (messageLists rs spent v).1, messages ≠ [] ∧ ∀ m ∈ messages, OneLine m
  | .rule r children, spent, hleaves => by
      have hinside := oneLine_messageListsOf hrs children spent hleaves
      rw [messageLists]
      cases r.exception with
      | none => exact hinside
      | some e =>
          intro messages hmessages
          rcases List.mem_cons.mp hmessages with rfl | hmessages
          · simpa using oneLine_failureMessage hrs e
          · exact hinside messages hmessages
  | .terminal t, spent, _ => by simp [messageLists]
  | .error t, spent, hleaves => oneLine_leafMessages hrs (hleaves t (by simp [leaves])) spent

/-- The same for several trees. -/
theorem oneLine_messageListsOf (hrs : ∀ r ∈ rs, OneLine r.message) : ∀ (vs : List View) (spent : List Nat),
    (∀ t, (false, t) ∈ leavesOf vs → t.isConjured = true → OneLine t.text) →
    ∀ messages ∈ (messageListsOf rs spent vs).1, messages ≠ [] ∧ ∀ m ∈ messages, OneLine m
  | [], spent, _ => by simp [messageListsOf]
  | v :: rest, spent, hleaves => by
      have hfirst := oneLine_messageLists hrs v spent fun t ht => hleaves t (List.mem_append_left _ ht)
      have hothers := oneLine_messageListsOf hrs rest (messageLists rs spent v).2 fun t ht =>
        hleaves t (List.mem_append_right _ ht)
      intro messages hmessages
      exact (List.mem_append.mp hmessages).elim (hfirst messages) (hothers messages)

end

end ParseNode.View

namespace Outline

variable {rs : List Report}

/-- The error element of a leaf has its messages, merged. -/
theorem merged_ofErrorLeaf (h : Report.Distinct rs) (spent : List Nat) (t : Token) :
    messagesOf (ofErrorLeaf (.ofReports rs) spent t).1 = (View.leafMessages rs spent t).1.map Text.joinLines ∧
      (ofErrorLeaf (.ofReports rs) spent t).2 = (View.leafMessages rs spent t).2 := by
  unfold ofErrorLeaf View.leafMessages
  by_cases hconjured : t.isConjured = true
  · simp [hconjured, messagesOf, messages, Text.joinLines]
  · simp only [hconjured, if_false, Bool.false_eq_true]
    by_cases hspent : spent.contains (t.start?.getD 0) = true
    · simp only [hspent, if_true]
      exact ⟨messagesOf_passed t, trivial⟩
    · simp only [hspent, if_false, Bool.false_eq_true, ErrorIndex.messagesAt?_ofReports h]
      cases Report.messagesAt rs (t.start?.getD 0) with
      | nil => exact ⟨messagesOf_passed t, rfl⟩
      | cons m ms => simp [messagesOf, messages, messagesOf_passed]

mutual

/-- **The error elements of a tree have their messages, merged.** -/
theorem merged_ofView (e : ElementTypes) (h : Report.Distinct rs) : ∀ (v : View) (spent : List Nat),
    messagesOf (ofView e (.ofReports rs) spent v).1 = (v.messageLists rs spent).1.map Text.joinLines ∧
      (ofView e (.ofReports rs) spent v).2 = (v.messageLists rs spent).2
  | .rule r children, spent => by
      obtain ⟨hmessages, hspent⟩ := merged_ofViews e h children spent
      rw [ofView, View.messageLists]
      cases r.exception with
      | none => simp [messagesOf, messages, hmessages, hspent]
      | some x =>
          have hfailure : Projector.failureMessage (.ofReports rs) x = Report.failureMessage rs x :=
            Projector.failureMessage_ofReports rs x
          simp [messagesOf, messages, hmessages, hspent, hfailure, Text.joinLines]
  | .terminal t, spent => by
      rw [ofView, View.messageLists]
      exact ⟨messagesOf_passed t, rfl⟩
  | .error t, spent => merged_ofErrorLeaf h spent t

/-- The same for several trees. -/
theorem merged_ofViews (e : ElementTypes) (h : Report.Distinct rs) : ∀ (vs : List View) (spent : List Nat),
    messagesOf (ofViews e (.ofReports rs) spent vs).1 = (View.messageListsOf rs spent vs).1.map Text.joinLines ∧
      (ofViews e (.ofReports rs) spent vs).2 = (View.messageListsOf rs spent vs).2
  | [], spent => ⟨rfl, rfl⟩
  | v :: rest, spent => by
      obtain ⟨hfirst, hspent⟩ := merged_ofView e h v spent
      obtain ⟨hothers, hlast⟩ := merged_ofViews e h rest (ofView e (.ofReports rs) spent v).2
      rw [ofViews, View.messageListsOf]
      rw [hspent] at hothers hlast
      simp [messagesOf_append, hfirst, hspent, hothers, hlast]

end

end Outline

/-! ## Messages that are told one by one -/

/-- **Messages are merged in error elements, and told one by one**: `lists` are the messages that the error elements of
a tree are made of. -/
structure MessagesWhole (tree : HostTree) (lists : List (List String)) : Prop where
  /-- The text of an error element is its messages, one to a line. -/
  merged : tree.errors.map ErrorElement.message = lists.map Text.joinLines
  /-- Its lines are the messages. -/
  split : (tree.errors.map fun e => Text.lines e.message) = lists
  /-- No error element goes without a message. -/
  inhabited : [] ∉ lists
  /-- Whoever tells of the tree takes the messages of one element after the other. -/
  diagnosed : Diagnostic.ofTree tree =
    (tree.errors.zip lists).foldl (fun ds (e, messages) => messages.foldl (Diagnostic.addLine e.span) ds) []
  /-- Each message is told of a stretch around its element. -/
  told : ∀ e messages, (e, messages) ∈ tree.errors.zip lists → ∀ m ∈ messages,
    ∃ d ∈ Diagnostic.ofTree tree, d.message = m ∧ d.span.covers e.span = true
  /-- Nothing else is told. -/
  whole : ∀ d ∈ Diagnostic.ofTree tree, ∃ messages ∈ lists, d.message ∈ messages

/-- **Messages of one line each** that have been merged are told one by one. -/
theorem messagesWhole_of_oneLine {tree : HostTree} {lists : List (List String)}
    (hmerged : tree.errors.map ErrorElement.message = lists.map Text.joinLines)
    (hlists : ∀ messages ∈ lists, messages ≠ [] ∧ ∀ m ∈ messages, OneLine m) : MessagesWhole tree lists := by
  have hsplit : (tree.errors.map fun e => Text.lines e.message) = lists := by
    have hlines := congrArg (List.map Text.lines) hmerged
    rw [List.map_map, List.map_map] at hlines
    refine hlines.trans ?_
    conv_rhs => rw [← List.map_id lists]
    exact List.map_congr_left fun messages hmessages => Text.lines_joinLines (hlists messages hmessages).2
  have hzip : tree.errors.zip lists = tree.errors.map fun e => (e, Text.lines e.message) := by
    have hpairs := List.zip_map' (f := id) (g := fun e : ErrorElement => Text.lines e.message) (l := tree.errors)
    rwa [List.map_id, hsplit] at hpairs
  refine ⟨hmerged, hsplit, fun hnil => (hlists [] hnil).1 rfl, ?_, ?_, ?_⟩
  · rw [hzip, List.foldl_map]
    rfl
  · intro e messages he m hm
    rw [hzip] at he
    obtain ⟨e', he', heq⟩ := List.mem_map.mp he
    cases heq
    exact Diagnostic.exists_covers he' hm
  · intro d hd
    obtain ⟨e, he, -, hline⟩ := Diagnostic.exists_of_mem hd
    exact ⟨_, hsplit ▸ List.mem_map_of_mem he, hline⟩

/-! ## The messages of a projection -/

/-- What the listeners have been told of in a projection. -/
def Projection.reports {τ : Type} (p : Projection τ) : List Report := p.journal.filterMap Note.report?

namespace Session

/-- A parser that has said nothing has said it on one line. -/
theorem worded_fresh (s : Session) {l : Language} (hnames : l.Unbroken) (host : Supervised GreenBuilder) :
    (s.parser l host).Worded :=
  ⟨hnames, Stream.numbered_ofSource _, nofun, nofun⟩

/-- **Merging messages and splitting them again are inverse.** If no name of the language and no condition of the
recognizer has a line break in it, then whatever the texts of the tokens are, the text of each error element of the host
tree falls apart into the messages that it has been made of: all that was reported at the offset of a token, or what is
said of a failed rule, or the text of a token that was made up.  Each of these messages is told as a whole. -/
theorem messages_whole {s : Session} {g : Grammar} {entry : RuleIndex} {root : Kind}
    {h : HostText} {host : Supervised GreenBuilder} {tree : HostTree}
    (hbuilder : host.builder = .ofText h g.language)
    (hrule : ∀ tokens, (g.entry (stepsFor tokens) entry).OrdinaryRule)
    (hnames : g.language.Unbroken)
    (htexts : ∀ tokens, (g.entry (stepsFor tokens) entry).Unbroken)
    (hok : (s.project g entry root host).1.outcome = .ok tree) :
    ∃ reports t v, reports = (s.project (τ := HostTree) g entry root host).1.reports ∧
      (s.recognize g entry host).1.outcome = .ok (t, .ofReports reports) ∧ t.view? = some v ∧
      MessagesWhole tree (v.messageLists reports []).1 := by
  have hcursor : host.cursor = .ofText h g.language := congrArg CursorBuilder.cursor hbuilder
  have hstart : host.cursor.position = 0 := by rw [hcursor]; rfl
  obtain ⟨q, r, vs, hprojected⟩ := projected (hrule _) hstart hok
  have hfresh := s.parser_fresh g.language host.mark.2 (by rw [host.cursor_mark]; exact hstart)
  have hwhole := hprojected.whole
  -- no exception is reported twice, so that all reports are collected
  obtain ⟨v, hv, hattested⟩ := Ends.of_ok ((hrule _).attested hfresh.reads hfresh.started hfresh.speculating rfl rfl
    hfresh.frames hfresh.tree hfresh.reports hfresh.listeners) hprojected.run
  obtain rfl : v = .rule r vs := Option.some.inj (hv.symm.trans hwhole.view)
  have hdistinct : Report.Distinct q.reports := hattested.distinct
  -- whatever has been said is one line
  obtain ⟨hworded, -⟩ := Ends.of_ok ((hrule _).ordinary.words (htexts _) (s.worded_fresh hnames host.mark.2))
    hprojected.run
  have hleaves : q.tree.leaves = (View.rule r vs).leaves := ParseTree.leaves_of_shows hwhole.shows hwhole.size
  have hlists := View.oneLine_messageLists hworded.reports (.rule r vs) [] (hleaves ▸ hworded.leaves)
  -- the outline of the parse tree has been carried out, and its messages are those of the host tree
  rw [hcursor] at hwhole
  obtain ⟨b, hbuild, hfinish, hin, hlen⟩ := hprojected.carried hbuilder rfl
  obtain ⟨-, -, hmessages⟩ := GreenBuilder.finish_build hbuild hfinish hin hlen
  rw [Outline.messagesOf_append, Outline.messagesOf_map_token, List.append_nil,
    (Outline.merged_ofView host.elements hdistinct _ _).1] at hmessages
  exact ⟨q.reports, q.tree, .rule r vs, hprojected.reports.symm, hprojected.recognize (hrule _), hv,
    messagesWhole_of_oneLine hmessages hlists⟩

end Session

/-! ## Messages that are merged at the end of the input -/

namespace Merged

/-- A language of one token type and two rules. -/
def language : Language where
  name := "merged"
  vocabulary := .ofNames [] [none, some "WORD"]
  rules := #[("main", ⟨0⟩), ("item", ⟨1⟩)]
  elements := ⟨2, 2⟩

/-- The first rule fails at everything: at its first token, at the end of the input, and once the end has been matched,
at the end of the input again, where a token is missing. -/
def grammar : Grammar where
  language := language
  entry _ _ := .asRule ⟨0⟩ fun _ =>
    (Recognizer.asRule ⟨1⟩ fun _ => .noViableAlt 1).bind fun _ =>
    (Recognizer.expect .eof ∅).bind fun _ =>
    (Recognizer.asRule ⟨1⟩ fun _ => .perform (.require false "at end")).bind fun _ =>
    (Recognizer.expect .eof ∅).bind fun _ => .expect ⟨1⟩ (.single .eof)

/-- A source in that language, of one token with a line break in it. -/
def host : Supervised GreenBuilder where
  builder := .ofText ⟨[⟨3, "a\r\nb"⟩], ""⟩ language
  elements := language.elements

/-- What is run over it. -/
def project : Projection HostTree := (({} : Session).project grammar ⟨0⟩ .file host).1

/-- The operations are those of a grammar. -/
theorem ordinaryRule_entry (steps : Nat) (r : RuleIndex) : (grammar.entry steps r).OrdinaryRule := by
  apply Recognizer.ordinaryRule_asRule
  refine .bind (Recognizer.ordinary_asRule (Recognizer.ordinary_noViableAlt 1)) fun _ => ?_
  refine .bind (Recognizer.ordinary_expect _ _) fun _ => ?_
  refine .bind (Recognizer.ordinary_asRule (Recognizer.ordinary_perform _)) fun _ => ?_
  exact .bind (Recognizer.ordinary_expect _ _) fun _ => Recognizer.ordinary_expect _ _

/-- The names have no line breaks. -/
theorem unbroken_language : language.Unbroken :=
  ⟨Vocabulary.unbroken_displayName (by decide), by decide⟩

/-- Nor has the condition. -/
theorem unbroken_entry (steps : Nat) (r : RuleIndex) : (grammar.entry steps r).Unbroken := by
  have hcondition : Text.Unbroken "at end" := by decide
  refine ⟨?_, fun _ => trivial⟩
  refine .bind (r := .asRule ⟨1⟩ fun _ => .noViableAlt 1) ⟨⟨trivial, fun b => b.elim⟩, fun _ => trivial⟩ fun _ => ?_
  refine .bind (r := .expect .eof ∅) ⟨trivial, fun _ => trivial⟩ fun _ => ?_
  refine .bind ⟨⟨hcondition, fun _ => trivial⟩, fun _ => trivial⟩ fun _ => ?_
  exact .bind (r := .expect .eof ∅) ⟨trivial, fun _ => trivial⟩ fun _ => ⟨trivial, fun _ => trivial⟩

/-- **Two reports at one place are told one by one**, and the line break in the token is told as it is written. -/
theorem messages_whole_merged : ∃ tree, project.outcome = .ok tree ∧ MessagesWhole tree [
    ["no viable alternative at input 'a\\r\\nb'"], ["no viable alternative at input 'a\\r\\nb'"],
    ["rule item failed predicate: \x7bat end\x7d?"],
    ["rule item failed predicate: \x7bat end\x7d?", "missing WORD at '<EOF>'"], ["<missing WORD>"]] := by
  have hbuilder : host.builder = .ofText ⟨[⟨3, "a\r\nb"⟩], ""⟩ grammar.language := rfl
  have hrun : ∃ tree, project.outcome = .ok tree := by decide +kernel
  have hlists : ((({} : Session).recognize grammar ⟨0⟩ host).1.outcome.toOption.bind fun o =>
      o.1.view?.map fun v => (v.messageLists project.reports []).1) = some [
    ["no viable alternative at input 'a\\r\\nb'"], ["no viable alternative at input 'a\\r\\nb'"],
    ["rule item failed predicate: \x7bat end\x7d?"],
    ["rule item failed predicate: \x7bat end\x7d?", "missing WORD at '<EOF>'"], ["<missing WORD>"]] := by
    decide +kernel
  obtain ⟨tree, houtcome⟩ := hrun
  refine ⟨tree, houtcome, ?_⟩
  rw [project] at houtcome hlists
  obtain ⟨reports, t, v, hreports, hrecognized, hv, hwhole⟩ := Session.messages_whole hbuilder
    (fun _ => ordinaryRule_entry _ _) unbroken_language (fun _ => unbroken_entry _ _) houtcome
  rw [hrecognized, ← hreports] at hlists
  have hview : t.view?.map (fun v => (v.messageLists reports []).1) = _ := hlists
  rw [hv, Option.map_some] at hview
  rwa [Option.some.inj hview] at hwhole

end Merged

end TreeProjection
