import TreeProjection.Proofs.Tracing

/-! # What a more verbose trace adds

A tracer writes the same lines at every verbosity, but for what it leaves out: a standard trace does not tell that a rule
is left or a token is passed, and only a very verbose one shows the text and the offset of a token.  The open rules are
counted alike, so that what is told of a step stands equally far in.  To say so, a trace is written once, as a script of
entries, and read in three ways.

* `Tracer.Entry`, `Tracer.entries` — a line taken apart, and the lines that tell of a step.
* `Tracer.script` — the lines that tell of several steps.
* `Tracer.lines_tellAll_eq` — a tracer of any verbosity reads the script.
* `Tracer.depth_of_run` — how far in a line stands.
* `Tracer.verbosity_adds` — a more verbose trace adds to the others. -/

namespace TreeProjection

namespace ProjectionEvent

variable {rules rules' : List RuleIndex} {e : ProjectionEvent}

/-- Whether a step is told of in verbose traces alone: a rule is left as a node, or a token is passed without an error. -/
def isDetail : ProjectionEvent → Bool
  | ruleDone _ => true
  | advance _ => true
  | errorLeaf _ none => true
  | _ => false

/-- Whether a step enters a rule. -/
def isEnter : ProjectionEvent → Bool
  | ruleEnter _ => true
  | _ => false

/-- Whether a step leaves a rule. -/
def isLeave : ProjectionEvent → Bool
  | ruleDone _ => true
  | ruleError _ _ => true
  | _ => false

/-- The token that the lines of a step show. -/
def token? : ProjectionEvent → Option Token
  | advance t => some t
  | errorLeaf t _ => some t
  | _ => none

/-- A step that is followed opens or leaves one rule, or none. -/
theorem length_follow (h : follow? rules e = some rules') :
    rules'.length + e.isLeave.toNat = rules.length + e.isEnter.toNat := by
  cases e with
  | ruleEnter r => exact Option.some.inj h ▸ rfl
  | ruleDone r | ruleError r message =>
      rw [follow?] at h
      split at h
      · rename_i hhead
        obtain ⟨inner, hinner⟩ := List.head?_eq_some_iff.mp hhead
        rw [← Option.some.inj h, hinner]
        rfl
      · cases h
  | _ => exact Option.some.inj h ▸ rfl

/-- **The open rules are those entered and not left.** -/
theorem length_openAfter {es : List ProjectionEvent} (h : openAfter? rules es = some rules') :
    es.foldl follow rules = rules' ∧ rules'.length + es.countP isLeave = rules.length + es.countP isEnter := by
  induction es generalizing rules with
  | nil => exact ⟨Option.some.inj h, congrArg List.length (Option.some.inj h).symm⟩
  | cons e rest ih =>
      rw [openAfter?, List.foldlM_cons] at h
      obtain ⟨inner, hinner, hrest⟩ := Option.bind_eq_some_iff.mp h
      obtain ⟨hfold, hlength⟩ := ih hrest
      have hstep := length_follow hinner
      refine ⟨by rw [List.foldl_cons, follow_eq hinner, hfold], ?_⟩
      rw [List.countP_cons, List.countP_cons]
      cases hleave : e.isLeave <;> cases henter : e.isEnter <;> simp [hleave, henter] at hstep ⊢ <;> omega

end ProjectionEvent

open ProjectionEvent

namespace Tracer

variable {l : Language} {c : Palette} {rules : List RuleIndex} {t : Tracer} {e : ProjectionEvent}

/-! ## Lines taken apart -/

/-- **A line of a trace**, taken apart. -/
structure Entry where
  /-- The step that it tells of. -/
  step : ProjectionEvent
  /-- How far in it stands. -/
  depth : Nat
  /-- What it says, up to the name of a token. -/
  lead : String
  /-- What a very verbose trace inserts after the name. -/
  detail : String := ""
  /-- What follows. -/
  rest : String := ""
  deriving DecidableEq, Repr

namespace Entry

/-- The line at a verbosity. -/
def line (v : Verbosity) (x : Entry) : String :=
  indented x.depth (x.lead ++ (if v = .veryVerbose then x.detail else "") ++ x.rest)

/-- The line at a verbosity, if it is written. -/
def shown? (v : Verbosity) (x : Entry) : Option String :=
  if v = .standard ∧ x.step.isDetail then none else some (x.line v)

/-- A line that shows no token is the same at every verbosity. -/
@[simp] theorem line_plain (v : Verbosity) (step : ProjectionEvent) (depth : Nat) (lead : String) :
    line v ⟨step, depth, lead, "", ""⟩ = indented depth lead := by
  simp [line]

/-- The line of a step that every trace tells of. -/
theorem shown?_of_not_detail {x : Entry} (v : Verbosity) (h : x.step.isDetail = false) :
    x.shown? v = some (x.line v) := by
  rw [shown?, h, if_neg (fun hv => Bool.false_ne_true hv.2)]

end Entry

/-- A word in one of a palette's colours. -/
def paint (c : Palette) (colour word : String) : String := colour ++ word ++ c.reset

/-- The text and the offset of a token. -/
def detail (c : Palette) (t : Token) : String :=
  " " ++ paint c c.green (Text.quoted t.text) ++
    match t.start? with
    | some offset => " " ++ paint c c.dim s!"@{offset}"
    | none => ""

/-- **The lines that tell of a step**, where some rules are open. -/
def entries (l : Language) (c : Palette) (rules : List RuleIndex) (e : ProjectionEvent) : List Entry :=
  let depth := (follow rules e).length
  match e with
  | .parseStart entry => [⟨e, 0, paint c c.dim "parse" ++ " " ++ l.ruleNameOrUnknown entry, "", ""⟩]
  | .parseEnd n =>
      let errors := if n = 1 then "error" else "errors"
      [⟨e, 0, paint c c.dim s!"recognized with {n} syntax {errors}", "", ""⟩]
  | .ruleEnter r => [⟨e, rules.length, paint c c.blue (l.ruleNameOrUnknown r), "", ""⟩]
  | .ruleDone r => [⟨e, depth, paint c c.dim "done" ++ " " ++ l.ruleNameOrUnknown r, "", ""⟩]
  | .ruleError r message => (Text.lines message).zipIdx.map fun line =>
      ⟨e, depth, paint c c.red "error" ++ " " ++ (if line.2 = 0 then l.ruleNameOrUnknown r else ""), "", ": " ++ line.1⟩
  | .advance t => [⟨e, depth, paint c c.dim "advance" ++ " " ++ l.vocabulary.elementName t.ty, detail c t, ""⟩]
  | .errorLeaf t (some message) => (Text.lines message).map fun line =>
      ⟨e, depth, paint c c.red "error" ++ " " ++ l.vocabulary.elementName t.ty, detail c t, ": " ++ line⟩
  | .errorLeaf t none =>
      [⟨e, depth, paint c c.dim "skip" ++ " " ++ l.vocabulary.elementName t.ty, detail c t, ""⟩]
  | .drain n => if n = 0 then [] else [⟨e, depth, paint c c.dim "drain" ++ s!" {n}", "", ""⟩]

/-- **The lines that tell of several steps**, one after the other. -/
def script (l : Language) (c : Palette) (rules : List RuleIndex) : List ProjectionEvent → List Entry
  | [] => []
  | e :: es => entries l c rules e ++ script l c (follow rules e) es

/-- **What is common to the lines that tell of a step**, where some rules are open. -/
structure TellsOf (l : Language) (c : Palette) (rules : List RuleIndex) (e : ProjectionEvent) (x : Entry) : Prop where
  /-- They tell of no other step. -/
  step : x.step = e
  /-- They stand as far in as rules are open after the step, or before it if it enters one; but the recognizer's are not
  indented. -/
  depth : x.depth = if e.isStep then if e.isEnter then rules.length else (follow rules e).length else 0
  /-- They show the token of the step by its name, after which very verbose traces insert its text and its offset. -/
  token : match e.token? with
    | some u => (∃ word, x.lead = word ++ l.vocabulary.elementName u.ty) ∧ x.detail = detail c u
    | none => x.detail = ""

/-- The lines that tell of a step do so. -/
theorem tellsOf_of_mem {x : Entry} (h : x ∈ entries l c rules e) : TellsOf l c rules e x := by
  cases e with
  | ruleError r message =>
      obtain ⟨line, -, rfl⟩ := List.mem_map.mp h
      exact ⟨rfl, rfl, rfl⟩
  | advance u => exact List.mem_singleton.mp h ▸ ⟨rfl, rfl, ⟨_, rfl⟩, rfl⟩
  | errorLeaf u message =>
      cases message with
      | some message =>
          obtain ⟨line, -, rfl⟩ := List.mem_map.mp h
          exact ⟨rfl, rfl, ⟨_, rfl⟩, rfl⟩
      | none => exact List.mem_singleton.mp h ▸ ⟨rfl, rfl, ⟨_, rfl⟩, rfl⟩
  | drain n =>
      rw [entries] at h
      split at h
      · cases h
      · exact List.mem_singleton.mp h ▸ ⟨rfl, rfl, rfl⟩
  | _ => exact List.mem_singleton.mp h ▸ ⟨rfl, rfl, rfl⟩

/-- The lines that tell of several steps tell of one of them each. -/
theorem mem_script {x : Entry} {es : List ProjectionEvent} (h : x ∈ script l c rules es) :
    ∃ rules' e, e ∈ es ∧ x ∈ entries l c rules' e := by
  induction es generalizing rules with
  | nil => cases h
  | cons e rest ih =>
      rcases List.mem_append.mp h with h | h
      · exact ⟨rules, e, List.mem_cons_self, h⟩
      · obtain ⟨rules', e', he', hx⟩ := ih h
        exact ⟨rules', e', List.mem_cons_of_mem _ he', hx⟩

/-- First some steps are told of, then others. -/
theorem script_append (es es' : List ProjectionEvent) (rules : List RuleIndex) :
    script l c rules (es ++ es') = script l c rules es ++ script l c (es.foldl follow rules) es' := by
  induction es generalizing rules with
  | nil => rfl
  | cons e rest ih => rw [List.cons_append, script, script, ih, List.foldl_cons, List.append_assoc]

/-! ## A tracer reads the script -/

/-- A token: its name, and in very verbose traces its text and offset. -/
theorem token_eq (t : Tracer) (u : Token) : t.token u = t.language.vocabulary.elementName u.ty ++
    if t.verbosity = .veryVerbose then detail t.palette u else "" := by
  by_cases hv : t.verbosity = .veryVerbose
  · simp only [token, hv, ne_eq, not_true_eq_false, if_false, if_true, detail, String.append_assoc]
    rfl
  · simp [token, hv]

/-- A line of its own is written behind the others. -/
theorem lines_addIndented (t : Tracer) (content : String) :
    (t.addIndented content).lines.toList = t.lines.toList ++ [indented t.rules.length content] :=
  Array.toList_push

/-- The lines of an error are written behind the others. -/
theorem lines_addError (t : Tracer) (head : Nat → String) (message : String) :
    (t.addError head message).lines.toList = t.lines.toList ++ (Text.lines message).zipIdx.map fun line =>
      indented t.rules.length (paint t.palette t.palette.red "error" ++ " " ++ head line.2 ++ ": " ++ line.1) := by
  rw [t.addError_eq head message rfl rfl]
  generalize (Text.lines message).zipIdx = numbered
  have hwritten : ∀ u : Tracer, u.rules = t.rules → (numbered.foldl (fun u line => u.addIndented
      (t.palette.red ++ "error" ++ t.palette.reset ++ " " ++ head line.2 ++ ": " ++ line.1)) u).lines.toList =
        u.lines.toList ++ numbered.map fun line =>
          indented t.rules.length (paint t.palette t.palette.red "error" ++ " " ++ head line.2 ++ ": " ++ line.1) := by
    induction numbered with
    | nil => exact fun u _ => (List.append_nil _).symm
    | cons line rest ih =>
        intro u hu
        rw [List.foldl_cons, ih (u.addIndented _) hu, lines_addIndented, hu, List.append_assoc]
        rfl
  exact hwritten t rfl

/-- The lines of a step that every trace tells of. -/
theorem filterMap_shown (v : Verbosity) (h : e.isDetail = false) :
    (entries l c rules e).filterMap (Entry.shown? v) = (entries l c rules e).map (Entry.line v) := by
  have hshown : ∀ xs : List Entry, (∀ x ∈ xs, x.step = e) →
      xs.filterMap (Entry.shown? v) = xs.map (Entry.line v) := by
    intro xs hxs
    induction xs with
    | nil => rfl
    | cons x xs ih =>
        obtain ⟨hx, hxs⟩ := List.forall_mem_cons.mp hxs
        rw [List.filterMap_cons_some (Entry.shown?_of_not_detail v (hx ▸ h)), List.map_cons, ih hxs]
  exact hshown _ fun x hx => (tellsOf_of_mem hx).step

/-- A line that verbose traces alone have. -/
theorem lines_detail (u : Tracer) {content : String} {x : Entry} (hx : x.step.isDetail = true)
    (hline : indented u.rules.length content = x.line u.verbosity) :
    (if u.verbosity = .standard then u else u.addIndented content).lines.toList =
      u.lines.toList ++ [x].filterMap (Entry.shown? u.verbosity) := by
  rw [List.filterMap_cons, List.filterMap_nil, Entry.shown?, hx]
  by_cases hv : u.verbosity = .standard
  · rw [if_pos hv, if_pos ⟨hv, rfl⟩, List.append_nil]
  · rw [if_neg hv, if_neg (fun h => hv h.1), lines_addIndented, hline]

/-- Where no rule is open, a line is not indented. -/
theorem indented_zero (line : String) : indented 0 line = line :=
  List.head_eq_of_cons_eq (map_indented_zero [line])

/-- **What is written of a step** are the lines that tell of it. -/
theorem lines_tell (t : Tracer) (e : ProjectionEvent) : (t.tell e).lines.toList =
    t.lines.toList ++ (entries t.language t.palette t.rules e).filterMap (Entry.shown? t.verbosity) := by
  cases e with
  | parseStart entry =>
      rw [filterMap_shown _ rfl, entries, List.map_singleton, Entry.line_plain, indented_zero]
      exact Array.toList_push
  | parseEnd n =>
      rw [filterMap_shown _ rfl, entries, List.map_singleton, Entry.line_plain, indented_zero]
      exact Array.toList_push
  | ruleEnter r =>
      rw [filterMap_shown _ rfl, entries, List.map_singleton, Entry.line_plain]
      exact t.lines_addIndented _
  | ruleDone r =>
      rw [tell, leave_follow]
      exact lines_detail { t with rules := _ } rfl (Entry.line_plain ..).symm
  | ruleError r message =>
      rw [tell, leave_follow, lines_addError, filterMap_shown _ rfl, entries, List.map_map]
      refine congrArg (t.lines.toList ++ ·) (List.map_congr_left fun line _ => ?_)
      simp [Entry.line, String.append_assoc, follow]
  | advance u =>
      rw [tell]
      refine lines_detail t rfl ?_
      simp only [token_eq, Entry.line, String.append_empty, String.append_assoc]
      rfl
  | errorLeaf u message =>
      cases message with
      | some message =>
          -- every line has the same head, so that the places of the lines do not matter
          have hplaces : ∀ write : String → String,
              (Text.lines message).zipIdx.map (fun line => write line.1) = (Text.lines message).map write := fun write => by
            rw [← Function.comp_def write Prod.fst, ← List.map_map, List.zipIdx_map_fst]
          rw [tell, lines_addError, filterMap_shown _ rfl, entries, List.map_map, hplaces fun line =>
            indented t.rules.length (paint t.palette t.palette.red "error" ++ " " ++ t.token u ++ ": " ++ line)]
          refine congrArg (t.lines.toList ++ ·) (List.map_congr_left fun line _ => ?_)
          simp [Entry.line, token_eq, String.append_assoc, follow]
      | none =>
          rw [tell]
          refine lines_detail t rfl ?_
          simp only [token_eq, Entry.line, String.append_empty, String.append_assoc]
          rfl
  | drain n =>
      by_cases hn : n = 0
      · simp [tell, entries, hn]
      · rw [tell, if_neg hn, filterMap_shown _ rfl, entries, if_neg hn, List.map_singleton, Entry.line_plain]
        exact t.lines_addIndented _

/-- **A tracer reads the script.** -/
theorem lines_tellAll_eq (t : Tracer) (es : List ProjectionEvent) : (t.tellAll es).lines.toList =
    t.lines.toList ++ (script t.language t.palette t.rules es).filterMap (Entry.shown? t.verbosity) := by
  induction es generalizing t with
  | nil => exact (List.append_nil _).symm
  | cons e rest ih =>
      have hcons : t.tellAll (e :: rest) = (t.tell e).tellAll rest := rfl
      obtain ⟨hlanguage, hverbosity, hpalette⟩ : (t.tell e).language = t.language ∧
          (t.tell e).verbosity = t.verbosity ∧ (t.tell e).palette = t.palette := by
        simpa [fresh] using t.fresh_tell e
      rw [hcons, ih, lines_tell, rules_tell_eq, hlanguage, hverbosity, hpalette, script, List.filterMap_append,
        List.append_assoc]

/-! ## How far in a line stands -/

/-- A step of a replay is told as far in as rules are open: when it leaves a rule, without that rule. -/
theorem TellsOf.depth_add {rules' : List RuleIndex} {x : Entry} (hx : TellsOf l c rules e x) (he : e.isStep = true)
    (h : follow? rules e = some rules') : x.depth + e.isLeave.toNat = rules.length := by
  have hlength := length_follow h
  rw [hx.depth, if_pos he, follow_eq h]
  split
  · rename_i henter
    cases e <;> first | rfl | cases henter
  · rename_i henter
    rwa [Bool.eq_false_iff.mpr henter] at hlength

/-- What the recognizer tells comes before any step of the replay. -/
theorem not_isStep_of_reports {es before after : List ProjectionEvent} {left : List RuleIndex} (h : Reports es left)
    (hes : es = before ++ e :: after) (he : e.isStep = false) : ∀ e' ∈ before, e'.isStep = false := by
  cases h with
  | refused => simp at hes
  | givenUp entry =>
      obtain ⟨rfl, -⟩ | ⟨_, -, hnil⟩ := List.append_eq_cons_iff.mp hes.symm
      · nofun
      · simp at hnil
  | replayed entry n steps opened =>
      rcases before with _ | ⟨a, _ | ⟨b, before⟩⟩
      · nofun
      · intro e' he'
        rw [List.mem_singleton.mp he', ← (List.cons.inj hes).1]
        rfl
      · -- the third step and all after it belong to the replay
        have hrest := (List.cons.inj (List.cons.inj hes).2).2
        have hstep := steps e (hrest ▸ List.mem_append_right _ List.mem_cons_self)
        rw [hstep] at he
        cases he

/-- **How far in a line of a run stands**: as many rules have been entered and not left. -/
theorem depth_of_run {es before after : List ProjectionEvent} {left : List RuleIndex} (h : Reports es left)
    (hes : es = before ++ e :: after) {x : Entry} (hx : TellsOf l c (before.foldl follow []) e x) :
    x.depth + (before ++ [e]).countP isLeave = before.countP isEnter := by
  have hopen := h.openAfter?
  rw [hes, openAfter?, List.foldlM_append] at hopen
  obtain ⟨rules, hrules, hopen⟩ := Option.bind_eq_some_iff.mp hopen
  rw [List.foldlM_cons] at hopen
  obtain ⟨rules', hfollow, -⟩ := Option.bind_eq_some_iff.mp hopen
  obtain ⟨hfold, hlength⟩ := length_openAfter hrules
  rw [List.countP_append, List.countP_singleton]
  cases he : e.isStep with
  | true =>
      have hdepth := (hfold ▸ hx).depth_add he hfollow
      -- a step of the replay is as far in as rules are open before it
      cases hleave : e.isLeave <;> simp [hleave] at hdepth hlength ⊢ <;> omega
  | false =>
      have hbefore := not_isStep_of_reports h hes he
      have hnone : ∀ p : ProjectionEvent → Bool, (∀ e', e'.isStep = false → p e' = false) →
          -- what the recognizer tells comes before any rule is entered
          before.countP p = 0 := fun p hp =>
        List.countP_eq_zero.mpr fun e' he' => Bool.eq_false_iff.mp (hp e' (hbefore e' he'))
      rw [hnone isLeave (fun e' he' => by cases e' <;> first | rfl | cases he'),
        hnone isEnter (fun e' he' => by cases e' <;> first | rfl | cases he')]
      rw [hx.depth, he]
      cases e <;> first | rfl | cases he

/-! ## More is added -/

/-- **The trace of some steps** by a tracer that has been told nothing before. -/
def trace (l : Language) (c : Palette) (v : Verbosity) (es : List ProjectionEvent) : List String :=
  (({ language := l, verbosity := v, palette := c } : Tracer).tellAll es).lines.toList

/-- A tracer that has been told nothing reads the whole script. -/
theorem trace_eq (l : Language) (c : Palette) (v : Verbosity) (es : List ProjectionEvent) :
    trace l c v es = (script l c [] es).filterMap (Entry.shown? v) :=
  lines_tellAll_eq _ es

/-- **More verbosity only adds.**  For any steps there is a script of lines, each of which tells of one of them; the lines
of a step are in the place of the step.  A verbose trace has all of these lines.  A standard trace has the same lines but
for those of steps that leave a rule as a node or pass a token without an error.  A very verbose trace has all lines,
equally far in, and where a line shows a token, the token's text and offset are inserted after its name.  In a run, a
tracer with no open rule adds the trace of the run's steps; and as far in as a line stands, so many rules have been entered
before its step, and not left before it or by it. -/
theorem verbosity_adds :
    (∀ (l : Language) (c : Palette) (es : List ProjectionEvent),
      trace l c .verbose es = (script l c [] es).map (fun x => indented x.depth (x.lead ++ x.rest)) ∧
      trace l c .standard es = ((script l c [] es).filter fun x => !x.step.isDetail).map
        (fun x => indented x.depth (x.lead ++ x.rest)) ∧
      trace l c .veryVerbose es = (script l c [] es).map (fun x => indented x.depth (x.lead ++ x.detail ++ x.rest)) ∧
      ∀ x ∈ script l c [] es, x.step ∈ es ∧ match x.step.token? with
        | some u => (∃ word, x.lead = word ++ l.vocabulary.elementName u.ty) ∧ x.detail = detail c u
        | none => x.detail = "") ∧
    ∀ {β τ : Type} [TreeBuilder β τ] (s : Session) (t : Tracer) (g : Grammar) (entry : RuleIndex) (root : Kind)
      (host : Supervised β), s.tracer = some t → t.rules = [] →
      let es := (s.project g entry root host).1.events
      ∃ t', (s.project g entry root host).2.tracer = some t' ∧
        t'.lines.toList = t.lines.toList ++ trace t.language t.palette t.verbosity es ∧
        ∀ before e after, es = before ++ e :: after →
          script t.language t.palette [] es = script t.language t.palette [] before ++
            (entries t.language t.palette (before.foldl follow []) e ++
              script t.language t.palette ((before ++ [e]).foldl follow []) after) ∧
          ∀ x ∈ entries t.language t.palette (before.foldl follow []) e, x.step = e ∧
            x.depth + (before ++ [e]).countP isLeave = before.countP isEnter := by
  refine ⟨fun l c es => ⟨?_, ?_, ?_, fun x hx => ?_⟩, ?_⟩
  · have hshown : Entry.shown? .verbose = fun x => some (indented x.depth (x.lead ++ x.rest)) := by
      funext x
      simp [Entry.shown?, Entry.line]
    rw [trace_eq, hshown, ← List.filterMap_eq_map']
  · have hshown : Entry.shown? .standard = fun x =>
        if !x.step.isDetail then some (indented x.depth (x.lead ++ x.rest)) else none := by
      funext x
      cases hx : x.step.isDetail <;> simp [Entry.shown?, Entry.line, hx]
    rw [trace_eq, hshown, ← List.filterMap_eq_map', List.filterMap_filter]
  · have hshown : Entry.shown? .veryVerbose = fun x => some (indented x.depth (x.lead ++ x.detail ++ x.rest)) := by
      funext x
      simp [Entry.shown?, Entry.line]
    rw [trace_eq, hshown, ← List.filterMap_eq_map']
  · obtain ⟨rules, e, he, hx⟩ := mem_script hx
    rw [(tellsOf_of_mem hx).step]
    exact ⟨he, (tellsOf_of_mem hx).token⟩
  · intro β τ _ s t g entry root host ht hrules es
    obtain ⟨left, hreports, -⟩ := s.reports_project g entry root host
    refine ⟨t.tellAll es, by rw [s.traced_project, ht, Option.map_some], ?_, fun before e after hes =>
      ⟨?_, fun x hx => ⟨(tellsOf_of_mem hx).step, depth_of_run hreports hes (tellsOf_of_mem hx)⟩⟩⟩
    · rw [lines_tellAll_eq, trace_eq, hrules]
    · rw [hes, script_append, script, List.foldl_append]
      rfl

/-- The token of the source `x`. -/
def letter : Token := { ty := ⟨1⟩, text := "x", span := some ⟨0, 1⟩, index := some 0 }

/-- A session whose runs are traced with all that can be shown. -/
def watching : Session := .tracing (some 8) CutShort.language .veryVerbose .plain

/-- The match of a token is told in verbose traces alone, one rule further in, and with its text and its offset in a very
verbose one. -/
theorem verbosity_adds_match :
    let run := watching.project CutShort.grammar ⟨0⟩ .file (CutShort.host none)
    run.1.events = [.parseStart ⟨0⟩, .parseEnd 0, .ruleEnter ⟨0⟩] ++ .advance letter :: [.ruleDone ⟨0⟩, .drain 0] ∧
    trace CutShort.language .plain .standard run.1.events =
      ["parse main", "recognized with 0 syntax errors", "main"] ∧
    trace CutShort.language .plain .verbose run.1.events =
      ["parse main", "recognized with 0 syntax errors", "main", "  advance 'x'", "done main"] ∧
    CutShort.lines run.2 =
      some ["parse main", "recognized with 0 syntax errors", "main", "  advance 'x' \"x\" @0", "done main"] ∧
    ∀ x ∈ entries CutShort.language .plain [⟨0⟩] (.advance letter), x.depth = 1 := by
  have hevents : (watching.project CutShort.grammar ⟨0⟩ .file (CutShort.host none)).1.events =
      [.parseStart ⟨0⟩, .parseEnd 0, .ruleEnter ⟨0⟩] ++ .advance letter :: [.ruleDone ⟨0⟩, .drain 0] := by decide +kernel
  obtain ⟨t', -, -, hplaces⟩ := verbosity_adds.2 watching
    { language := CutShort.language, verbosity := .veryVerbose, palette := .plain } CutShort.grammar ⟨0⟩ .file
    (CutShort.host none) rfl rfl
  obtain ⟨-, hdepth⟩ := hplaces [.parseStart ⟨0⟩, .parseEnd 0, .ruleEnter ⟨0⟩] (.advance letter)
    [.ruleDone ⟨0⟩, .drain 0] hevents
  exact ⟨hevents, by decide +kernel, by decide +kernel, by decide +kernel, fun x hx => (hdepth x hx).2⟩

end Tracer

end TreeProjection
