import TreeProjection.Proofs.Becoming
import TreeProjection.Proofs.Repeating
import TreeProjection.Query.Dump

/-! # Messages of error elements

A finished tree has its messages in a list, in the order in which the regions were opened, and nothing in the tree says
which message belongs to which node.  Whoever shows the tree goes through its nodes and takes the next message at each
error node.  That gives every error node the message that its region was closed with, as long as no region is closed as
a node of the kind of error elements.

* `Dump.labelled` — elements in order, each error node with the next message.
* `Dump.text_eq_rows`, `NodeDump.flatten_ofTree` — both dumps show the elements so.
* `GreenBuilder.messages_recorded` — the messages of a tree are those of the regions.
* `GreenBuilder.errors_carry_messages` — every error element has the message of its region and the span of its node. -/

namespace TreeProjection

/-! ## Elements with messages -/

namespace Dump

/-- **Elements in order with the messages that are shown at them**: each error node takes the next one. -/
def labelled (messages : List String) : List Located → List (Located × Option String)
  | [] => []
  | x :: rest =>
    if Query.isError x then (x, messages.head?) :: labelled messages.tail rest
    else (x, none) :: labelled messages rest

variable {messages : List String} {xs ys : List Located}

/-- Elements, and then others, which take the messages that are left. -/
theorem labelled_append : labelled messages (xs ++ ys) =
    labelled messages xs ++ labelled (messages.drop (xs.countP Query.isError)) ys := by
  induction xs generalizing messages with
  | nil => rfl
  | cons x xs ih =>
      by_cases hx : Query.isError x = true
      · simp [labelled, hx, ih, List.drop_tail]
      · simp [labelled, hx, ih]

/-- Tokens take no messages. -/
theorem filter_labelled : (labelled messages xs).filter (fun row => row.1.isNode) =
    labelled messages (xs.filter Located.isNode) := by
  induction xs generalizing messages with
  | nil => rfl
  | cons x xs ih =>
      by_cases hx : x.isNode = true
      · rw [List.filter_cons_of_pos hx, labelled, labelled]
        split <;> simp [hx, ih]
      · have hx' : Query.isError x = false := by simp [Query.isError, hx]
        rw [List.filter_cons_of_neg hx, labelled, hx', ← ih]
        simp [hx]

/-- A node takes the message that a dump gives it. -/
theorem labelled_node (kind : Kind) (children : List GreenTree) (start : Nat) (path : List Nat) :
    labelled messages (⟨.node kind children, start, path⟩ :: xs) =
      (⟨.node kind children, start, path⟩, (takeMessage kind messages).1) ::
        labelled (takeMessage kind messages).2 xs := by
  by_cases hkind : kind = .error
  · simp [labelled, takeMessage, Query.isError, Located.isNode, GreenTree.isNode, Located.kind, GreenTree.kind, hkind]
  · simp [labelled, takeMessage, Query.isError, Located.isNode, GreenTree.isNode, Located.kind, GreenTree.kind, hkind]

/-- The messages that are left after a node and others. -/
theorem drop_countP_node (kind : Kind) (children : List GreenTree) (start : Nat) (path : List Nat) :
    messages.drop ((⟨.node kind children, start, path⟩ :: xs).countP Query.isError) =
      (takeMessage kind messages).2.drop (xs.countP Query.isError) := by
  by_cases hkind : kind = .error
  · simp [takeMessage, Query.isError, Located.isNode, GreenTree.isNode, Located.kind, GreenTree.kind, hkind]
  · simp [takeMessage, Query.isError, Located.isNode, GreenTree.isNode, Located.kind, GreenTree.kind, hkind]

variable (l : Language) (o : DumpOptions)

/-- The line of a dump that shows an element, if it is shown. -/
def row (x : Located) (message : Option String) : String :=
  match x.element with
  | .token t =>
    if shows l o t then line l o x.path.length t.kind x.start t.text.utf8ByteSize (some t.text) else ""
  | .node kind children => line l o x.path.length kind x.start (GreenTree.lengths children) message

/-- The lines of elements. -/
def rows (shown : List (Located × Option String)) : String := String.join (shown.map fun (x, m) => row l o x m)

/-- The lines of elements, and then of others. -/
theorem rows_append (shown more : List (Located × Option String)) :
    rows l o (shown ++ more) = rows l o shown ++ rows l o more := by
  simp [rows]

mutual

/-- **A dump of an element shows the elements in order**, and leaves the messages that it has not shown. -/
theorem element_eq : ∀ (t : GreenTree) (path : List Nat) (start : Nat) (messages : List String),
    element l o path.length start messages t =
      (rows l o (labelled messages (t.preorder path start)),
        messages.drop ((t.preorder path start).countP Query.isError))
  | .token t, path, start, messages => by
      simp [element, GreenTree.preorder, labelled, rows, row, Query.isError, Located.isNode, GreenTree.isNode]
  | .node kind children, path, start, messages => by
      have hinside := elements_eq children path start 0 (takeMessage kind messages).2
      rw [element, GreenTree.preorder, labelled_node, drop_countP_node]
      simp only [hinside]
      simp [rows, row]

/-- A dump of elements side by side shows them in order. -/
theorem elements_eq : ∀ (ts : List GreenTree) (path : List Nat) (start c : Nat) (messages : List String),
    elements l o (path.length + 1) start messages ts =
      (rows l o (labelled messages (GreenTree.preorders path start c ts)),
        messages.drop ((GreenTree.preorders path start c ts).countP Query.isError))
  | [], path, start, c, messages => rfl
  | t :: rest, path, start, c, messages => by
      have hfirst := element_eq t (path ++ [c]) start messages
      have hothers := elements_eq rest path (start + t.length) (c + 1)
        (messages.drop ((t.preorder (path ++ [c]) start).countP Query.isError))
      rw [List.length_append, List.length_singleton] at hfirst
      rw [elements, hfirst, GreenTree.preorders, labelled_append, rows_append, List.countP_append, ← List.drop_drop]
      simp only [hothers]

end

end Dump

/-- The elements of a finished tree in order, with the messages that are shown at them. -/
def HostTree.labelled (t : HostTree) : List (Located × Option String) :=
  Dump.labelled (t.errors.map ErrorElement.message) (t.green.preorder [] 0)

/-- **A tree as text shows its elements in order with their messages.** -/
theorem Dump.text_eq_rows (l : Language) (o : DumpOptions) (t : HostTree) : text l o t = rows l o t.labelled := by
  have hall := element_eq l o t.green [] 0 (t.errors.map ErrorElement.message)
  rw [List.length_nil] at hall
  rw [text, hall]
  rfl

namespace NodeDump

mutual

/-- An element and those below it, each without those below it. -/
def flatten : NodeDump → List NodeDump
  | ⟨kind, start, stop, text, message, children⟩ => ⟨kind, start, stop, text, message, []⟩ :: flattens children

/-- Elements side by side and those below them. -/
def flattens : List NodeDump → List NodeDump
  | [] => []
  | d :: rest => flatten d ++ flattens rest

end

/-- Elements side by side, and then others. -/
theorem flattens_append (ds es : List NodeDump) : flattens (ds ++ es) = flattens ds ++ flattens es := by
  induction ds with
  | nil => rfl
  | cons d ds ih => rw [List.cons_append, flattens, flattens, ih, List.append_assoc]

variable (l : Language) (o : DumpOptions)

/-- The data that show an element on its own, if it is shown. -/
def entry? (x : Located) (message : Option String) : Option NodeDump :=
  match x.element with
  | .token t =>
    if Dump.shows l o t then
      some ⟨l.elementName t.kind, x.start, x.start + t.text.utf8ByteSize, some t.text, none, []⟩
    else none
  | .node kind children =>
    some ⟨l.elementName kind, x.start, x.start + GreenTree.lengths children, none, message, []⟩

/-- The data that show elements. -/
def entries (shown : List (Located × Option String)) : List NodeDump := shown.filterMap fun (x, m) => entry? l o x m

mutual

/-- **The data of an element show the elements in order**, and leave the messages that they have not shown. -/
theorem ofElement_eq : ∀ (t : GreenTree) (path : List Nat) (start : Nat) (messages : List String),
    (flattens (ofElement l o start messages t).1, (ofElement l o start messages t).2) =
      (entries l o (Dump.labelled messages (t.preorder path start)),
        messages.drop ((t.preorder path start).countP Query.isError))
  | .token t, path, start, messages => by
      have htoken : Query.isError ⟨.token t, start, path⟩ = false := rfl
      rw [ofElement, GreenTree.preorder, Dump.labelled, htoken, List.countP_singleton, htoken]
      by_cases hshown : Dump.shows l o t = true
      · simp [entries, entry?, hshown, flattens, flatten, Dump.labelled]
      · simp [entries, entry?, hshown, flattens, Dump.labelled]
  | .node kind children, path, start, messages => by
      have hinside := ofElements_eq children path start 0 (Dump.takeMessage kind messages).2
      rw [Prod.mk.injEq] at hinside
      rw [ofElement, GreenTree.preorder, Dump.labelled_node, Dump.drop_countP_node]
      simp only [flattens, flatten, hinside.1, hinside.2]
      simp [entries, entry?]

/-- The data of elements side by side show them in order. -/
theorem ofElements_eq : ∀ (ts : List GreenTree) (path : List Nat) (start c : Nat) (messages : List String),
    (flattens (ofElements l o start messages ts).1, (ofElements l o start messages ts).2) =
      (entries l o (Dump.labelled messages (GreenTree.preorders path start c ts)),
        messages.drop ((GreenTree.preorders path start c ts).countP Query.isError))
  | [], path, start, c, messages => rfl
  | t :: rest, path, start, c, messages => by
      have hfirst := ofElement_eq t (path ++ [c]) start messages
      have hothers := ofElements_eq rest path (start + t.length) (c + 1)
        (messages.drop ((t.preorder (path ++ [c]) start).countP Query.isError))
      rw [Prod.mk.injEq] at hfirst hothers
      rw [ofElements, GreenTree.preorders, Dump.labelled_append, List.countP_append, ← List.drop_drop]
      simp only [hfirst.2, flattens_append, hfirst.1, hothers.1, hothers.2]
      simp [entries]

end

/-- A node is dumped as one element. -/
theorem ofElement_ofTree {t : HostTree} (hroot : t.green.isNode = true) :
    (ofElement l o 0 (t.errors.map ErrorElement.message) t.green).1 = [ofTree l o t] := by
  cases hgreen : t.green with
  | token u =>
      rw [hgreen] at hroot
      cases hroot
  | node kind children =>
      rw [ofTree, hgreen]
      rfl

/-- **A tree as data shows its elements in order with their messages.** -/
theorem flatten_ofTree {t : HostTree} (hroot : t.green.isNode = true) :
    (ofTree l o t).flatten = entries l o t.labelled := by
  have hall := ofElement_eq l o t.green [] 0 (t.errors.map ErrorElement.message)
  rw [Prod.mk.injEq, ofElement_ofTree l o hroot, flattens, flattens, List.append_nil] at hall
  exact hall.1

end NodeDump

/-! ## Messages of regions -/

namespace GreenBuilder

variable {h : HostText} {l : Language} {rs : List Region} {xs : List Located} {calls : List BuilderCall}
  {b : GreenBuilder}

/-- No region is closed as a node of the kind of error elements. -/
def Region.Sound (r : Region) : Prop := r.closing ≠ some (.node .error)

/-- A region that is closed in a sound way is sound. -/
theorem Region.Sound.close {r : Region} {marker : Nat} {closing : Closing} (hr : r.Sound)
    (hclosing : closing ≠ .node .error) : (r.close marker closing).Sound := by
  unfold Region.close
  split
  · exact fun h => hclosing (Option.some.inj h)
  · exact hr

/-- **A call that does not close a region as such a node** leaves regions sound. -/
theorem sound_keep {call : BuilderCall} (hrs : ∀ r ∈ rs, r.Sound) (hcall : ∀ marker, call ≠ .done marker .error) :
    ∀ r ∈ call.keep b rs, r.Sound := by
  cases call with
  | advance => exact hrs
  | mark =>
      intro r hr
      rcases List.mem_append.mp hr with hr | hr
      · exact hrs r hr
      · cases List.mem_singleton.mp hr
        exact nofun
  | done marker kind =>
      intro r hr
      obtain ⟨r₀, hr₀, rfl⟩ := List.mem_map.mp hr
      refine (hrs r₀ hr₀).close ?_
      rintro ⟨rfl⟩
      exact hcall marker rfl
  | error marker message =>
      intro r hr
      obtain ⟨r₀, hr₀, rfl⟩ := List.mem_map.mp hr
      exact (hrs r₀ hr₀).close nofun
  | rollback marker => exact fun r hr => hrs r ((List.takeWhile_sublist _).mem hr)

/-- Calls that do not close regions as such nodes leave regions sound. -/
theorem sound_regions (hrs : ∀ r ∈ rs, r.Sound) (hcalls : ∀ marker, .done marker .error ∉ calls) :
    ∀ r ∈ BuilderCall.regions b rs calls, r.Sound := by
  induction calls generalizing b rs with
  | nil => exact hrs
  | cons call rest ih =>
      rw [BuilderCall.regions]
      split
      · refine ih (sound_keep hrs fun marker heq => ?_) fun marker hmem =>
          hcalls marker (List.mem_cons_of_mem _ hmem)
        exact hcalls marker (heq ▸ List.mem_cons_self)
      · exact hrs

/-- **The node of a sound region** is an error node if the region has a message. -/
theorem Region.Sound.isError {r : Region} {x : Located} (hsound : r.Sound) (hnode : x.isNode = true)
    (hkind : r.closing.map Closing.kind = some x.kind) : Query.isError x = r.message?.isSome := by
  obtain ⟨closing, hclosing, hkind⟩ := Option.map_eq_some_iff.mp hkind
  rw [Query.isError, hnode, Bool.true_and, ← hkind, Region.message?, hclosing]
  cases closing with
  | node kind =>
      have hne : kind ≠ .error := fun h => hsound (hclosing.trans (h ▸ rfl))
      simpa [Closing.kind] using hne
  | error message => rfl

mutual

/-- **The messages of an outline** are those of its regions, in order. -/
theorem messages_recorded (tokens : Array PlacedToken) (place : Nat → Nat) : ∀ (o : Outline) (n i : Nat),
    (recorded tokens n (o.events place i)).filterMap Region.message? = o.messages
  | .token t, n, i => rfl
  | .node kind parts, n, i => by
      rw [Outline.events, recorded, recorded_append, Outline.messages, ← messagesOf_recorded tokens place parts (n + 1) i]
      simp [recorded, List.filterMap_cons, Region.message?]
  | .error message parts, n, i => by
      rw [Outline.events, recorded, recorded_append, Outline.messages, ← messagesOf_recorded tokens place parts (n + 1) i]
      simp [recorded, Region.message?]

/-- The messages of several outlines are those of their regions, in order. -/
theorem messagesOf_recorded (tokens : Array PlacedToken) (place : Nat → Nat) : ∀ (os : List Outline) (n i : Nat),
    (recorded tokens n (Outline.eventsOf place i os)).filterMap Region.message? = Outline.messagesOf os
  | [], n, i => rfl
  | o :: rest, n, i => by
      rw [Outline.eventsOf, recorded_append, List.filterMap_append, messages_recorded tokens place o,
        messagesOf_recorded tokens place rest, Outline.messagesOf]

end

/-- **The messages of an accepted record** are those of its regions. -/
theorem Rooted.messages {es : List Event} {tree : HostTree} {closing : Closing} {parts : List Outline}
    (hroot : Rooted h l es tree closing parts) :
    (recorded (h.significant l).toArray 0 es).filterMap Region.message? =
      closing.messages (Outline.messagesOf parts) := by
  obtain ⟨more, hes, hmore⟩ := hroot.events
  rw [hes, List.cons_append, List.append_assoc, recorded, recorded_append,
    ← messagesOf_recorded (h.significant l).toArray (h.placeAt l) parts 1 0]
  cases closing <;> simp [recorded, recorded_tokens hmore, List.filterMap_cons, Region.message?, Closing.messages]

end GreenBuilder

/-! ## Error nodes -/

mutual

/-- The spans of the error elements are those of the error nodes. -/
theorem GreenTree.map_span_preorder : ∀ (t : GreenTree) (path : List Nat) (start : Nat),
    ((t.preorder path start).filter Query.isError).map Located.span = t.errorSpans start
  | .token t, path, start => rfl
  | .node kind children, path, start => by
      have hinside := map_span_preorders children path start 0
      rw [preorder, errorSpans, ← hinside, List.filter_cons]
      by_cases hkind : kind = .error
      · simp [Query.isError, Located.isNode, isNode, Located.kind, GreenTree.kind, hkind, Located.span, length]
      · simp [Query.isError, Located.isNode, isNode, Located.kind, GreenTree.kind, hkind]

/-- The spans of the error elements of several elements are those of the error nodes. -/
theorem GreenTree.map_span_preorders : ∀ (ts : List GreenTree) (path : List Nat) (start c : Nat),
    ((preorders path start c ts).filter Query.isError).map Located.span = errorSpansOf start ts
  | [], path, start, c => rfl
  | t :: rest, path, start, c => by
      rw [preorders, errorSpansOf, List.filter_append, List.map_append, map_span_preorder t, map_span_preorders rest]

end

/-- Error nodes are nodes. -/
theorem Query.filter_isError_nodes (q : Query) :
    q.nodes.filter Query.isError = q.root.preorder.filter Query.isError := by
  rw [nodes, List.filter_filter]
  refine List.filter_congr fun x _ => ?_
  simp only [Query.isError]
  cases x.isNode <;> simp

/-! ## Diagnostics -/

namespace Diagnostic

variable {t : HostTree} {e : ErrorElement} {line : String}

/-- The lines of a tree's messages are those of its error elements. -/
theorem exists_mem_messageLines (he : e ∈ t.errors) (hline : line ∈ Text.lines e.message) :
    ∃ m ∈ t.messageLines, m.span = e.span ∧ m.text = line := by
  obtain ⟨i, hi⟩ := List.mem_iff_getElem?.mp he
  obtain ⟨k, hk⟩ := List.mem_iff_getElem?.mp hline
  have hzip : (e, i) ∈ t.errors.zipIdx := List.mk_mem_zipIdx_iff_getElem?.mpr hi
  have hlines : (line, k) ∈ (Text.lines e.message).zipIdx := List.mk_mem_zipIdx_iff_getElem?.mpr hk
  exact ⟨⟨i, k, e.span, line⟩, List.mem_flatMap.mpr ⟨(e, i), hzip, List.mem_map.mpr ⟨(line, k), hlines, rfl⟩⟩, rfl, rfl⟩

/-- The diagnostics are the lines that repeat none before them. -/
theorem ofTree_eq_firsts (t : HostTree) :
    ofTree t = (MessageLine.firsts t.messageLines).map MessageLine.diagnostic := by
  rw [t.ofTree_eq_foldl, MessageLine.foldl_addLine t.pairwise_messageLines]

/-- **Each line of a message is told** of a stretch of the source around the error element. -/
theorem exists_covers (he : e ∈ t.errors) (hline : line ∈ Text.lines e.message) :
    ∃ d ∈ ofTree t, d.message = line ∧ d.span.covers e.span = true := by
  obtain ⟨m, hm, hspan, htext⟩ := exists_mem_messageLines he hline
  obtain ⟨m', hm', hrepeats⟩ := MessageLine.exists_mem_firsts t.pairwise_messageLines hm
  rw [ofTree_eq_firsts]
  exact ⟨m'.diagnostic, List.mem_map_of_mem hm', hrepeats.1.trans htext, hspan ▸ hrepeats.2⟩

/-- **What is told** is a line of the message of an error element, with the span of that element. -/
theorem exists_of_mem {d : Diagnostic} (hd : d ∈ ofTree t) :
    ∃ e ∈ t.errors, d.span = e.span ∧ d.message ∈ Text.lines e.message := by
  rw [ofTree_eq_firsts] at hd
  obtain ⟨m, hm, rfl⟩ := List.mem_map.mp hd
  obtain ⟨⟨e, i⟩, he, hm⟩ := List.mem_flatMap.mp (List.mem_filter.mp hm).1
  obtain ⟨⟨text, k⟩, htext, rfl⟩ := List.mem_map.mp hm
  exact ⟨e, List.fst_mem_of_mem_zipIdx he, rfl, List.fst_mem_of_mem_zipIdx htext⟩

end Diagnostic

namespace GreenBuilder

variable {h : HostText} {l : Language} {rs : List Region} {xs : List Located} {calls : List BuilderCall}
  {b : GreenBuilder} {tree : HostTree}

/-- The error element that a region becomes at a node, if it is closed as one. -/
def Region.element? (x : Located) (r : Region) : Option ErrorElement := r.message?.map fun message => ⟨x.span, message⟩

/-- **Where the error nodes are those of the regions with messages**, the messages belong to the nodes one by one. -/
theorem zip_isError (hmatch : List.Forall₂ (fun r x => Query.isError x = Option.isSome r.message?) rs xs) :
    (((xs.filter Query.isError).map Located.span).zip (rs.filterMap Region.message?)).map
        (fun e => (⟨e.1, e.2⟩ : ErrorElement)) = (xs.zip rs).filterMap (fun (x, r) => r.element? x) ∧
      ((xs.filter Query.isError).map Located.span).length = (rs.filterMap Region.message?).length ∧
      Dump.labelled (rs.filterMap Region.message?) xs = xs.zip (rs.map Region.message?) := by
  induction hmatch with
  | nil => exact ⟨rfl, rfl, rfl⟩
  | @cons r x rs xs hx _ ih =>
      obtain ⟨hzip, hlength, hlabelled⟩ := ih
      cases hr : r.message? with
      | none =>
          rw [hr] at hx
          have hx : Query.isError x = false := hx
          simp [hx, hr, hzip, hlength, hlabelled, Region.element?, Dump.labelled]
      | some message =>
          rw [hr] at hx
          have hx : Query.isError x = true := hx
          simp [hx, hr, hzip, hlength, hlabelled, Region.element?, Dump.labelled]

/-- **Error elements have their own spans and messages.**  Whatever calls have been made, none of which closes a region
as a node of the kind of error elements: if a tree is handed over in the end, then the regions that are left are its
nodes, in the order in which they were opened.  There is one error element for each region that was closed as one, with
its message and with the span of its node, which are the error nodes in order.  Each of them is shown in both dumps
with that message, the lines of the message are told of stretches around the node, and nothing else is told. -/
theorem errors_carry_messages (hcalls : BuilderCall.runAll (ofText h l) calls = .ok b)
    (hfinish : b.finish = .ok tree) (hdone : ∀ marker, .done marker .error ∉ calls) :
    let regions := BuilderCall.regions (ofText h l) [] calls
    let nodes := (⟨tree, l⟩ : Query).nodes
    List.Forall₂ (fun r x => r.closing.map Closing.kind = some x.kind) regions nodes ∧
      tree.errors = (nodes.zip regions).filterMap (fun (x, r) => r.element? x) ∧
      tree.errors.map ErrorElement.message = regions.filterMap Region.message? ∧
      tree.errors.map ErrorElement.span = (nodes.filter Query.isError).map Located.span ∧
      (tree.labelled.filter fun shown => shown.1.isNode) = nodes.zip (regions.map Region.message?) ∧
      (∀ o, Dump.text l o tree = Dump.rows l o tree.labelled ∧
        (NodeDump.ofTree l o tree).flatten = NodeDump.entries l o tree.labelled) ∧
      (∀ e ∈ tree.errors, ∀ line ∈ Text.lines e.message, ∃ d ∈ Diagnostic.ofTree tree,
        d.message = line ∧ d.span.covers e.span = true) ∧
      ∀ d ∈ Diagnostic.ofTree tree, ∃ e ∈ tree.errors, d.span = e.span ∧ d.message ∈ Text.lines e.message := by
  intro regions nodes
  obtain ⟨closing, parts, hrooted⟩ := exists_root hcalls hfinish
  have hkinds : List.Forall₂ (fun r x => x.isNode = true ∧ r.closing.map Closing.kind = some x.kind) regions nodes := by
    rw [show regions = _ from regions_eq_recorded hcalls hfinish]
    exact hrooted.kinds
  have hnone : ∀ r ∈ ([] : List Region), r.Sound := nofun
  have hsound : ∀ r ∈ regions, r.Sound := sound_regions hnone hdone
  have hmatch : List.Forall₂ (fun r x => Query.isError x = Option.isSome r.message?) regions nodes :=
    ((List.forall₂_and_left _ _).mpr ⟨hsound, hkinds⟩).imp fun r x hx => hx.1.isError hx.2.1 hx.2.2
  obtain ⟨hzip, hlength, hlabelled⟩ := zip_isError hmatch
  have hspans : tree.green.errorSpans 0 = (nodes.filter Query.isError).map Located.span := by
    rw [Query.filter_isError_nodes]
    exact (GreenTree.map_span_preorder tree.green [] 0).symm
  have hmessages : closing.messages (Outline.messagesOf parts) = regions.filterMap Region.message? := by
    rw [show regions = _ from regions_eq_recorded hcalls hfinish]
    exact hrooted.messages.symm
  have herrors := hrooted.errors
  rw [hspans, hmessages] at herrors
  have htexts : tree.errors.map ErrorElement.message = regions.filterMap Region.message? := by
    rw [herrors, List.map_map]
    exact List.map_snd_zip (Nat.le_of_eq hlength.symm)
  refine ⟨hkinds.imp fun r x hx => hx.2, herrors.trans hzip, htexts, ?_, ?_, fun o => ⟨Dump.text_eq_rows l o tree, ?_⟩,
    fun e he line hline => Diagnostic.exists_covers he hline, fun d hd => Diagnostic.exists_of_mem hd⟩
  · rw [herrors, List.map_map]
    exact List.map_fst_zip (Nat.le_of_eq hlength)
  · rw [HostTree.labelled, htexts, Dump.filter_labelled]
    exact hlabelled
  · refine NodeDump.flatten_ofTree l o ?_
    rw [hrooted.green]
    rfl

/-- Of the error elements one is dropped, and its number is given out again.  Of those that are left the outer one is
closed after the inner one, and comes first. -/
theorem errors_carry_messages_calls : ∃ b tree,
    BuilderCall.runAll (ofText (Sample.cut " x = // \n 1 ; ") Sample.language) sampleCalls = .ok b ∧
    b.finish = .ok tree ∧ (∀ marker, .done marker .error ∉ sampleCalls) ∧
    tree.errors = [⟨⟨10, 1⟩, "operand"⟩, ⟨⟨10, 0⟩, "number"⟩, ⟨⟨14, 0⟩, "late"⟩] ∧
    tree.errors.map ErrorElement.message =
      (BuilderCall.regions (ofText (Sample.cut " x = // \n 1 ; ") Sample.language) [] sampleCalls).filterMap
        Region.message? ∧
    tree.errors.map ErrorElement.span =
      ((⟨tree, Sample.language⟩ : Query).nodes.filter Query.isError).map Located.span ∧
    Diagnostic.ofTree tree = [⟨⟨10, 1⟩, "operand"⟩, ⟨⟨10, 0⟩, "number"⟩, ⟨⟨14, 0⟩, "late"⟩] := by
  have hrun : ∃ tree, (BuilderCall.runAll (ofText (Sample.cut " x = // \n 1 ; ") Sample.language) sampleCalls
      >>= finish) = .ok tree ∧
        tree.errors = [⟨⟨10, 1⟩, "operand"⟩, ⟨⟨10, 0⟩, "number"⟩, ⟨⟨14, 0⟩, "late"⟩] ∧
        Diagnostic.ofTree tree = [⟨⟨10, 1⟩, "operand"⟩, ⟨⟨10, 0⟩, "number"⟩, ⟨⟨14, 0⟩, "late"⟩] := by
    decide +kernel
  obtain ⟨tree, hall, herrors, hdiagnostics⟩ := hrun
  obtain ⟨b, hcalls, hfinish⟩ := BuilderCall.exists_of_bind hall
  have hdone : ∀ marker, BuilderCall.done marker .error ∉ sampleCalls := by
    intro marker hmem
    have hne : Kind.error ≠ Kind.file := by decide
    simp [sampleCalls, hne] at hmem
  obtain ⟨-, -, hmessages, hspans, -⟩ := errors_carry_messages hcalls hfinish hdone
  exact ⟨b, tree, hcalls, hfinish, hdone, herrors, hmessages, hspans, hdiagnostics⟩

end GreenBuilder

end TreeProjection
