import TreeProjection.Proofs.Labelling

/-! # Dumps as text and as data

A tree is dumped as text by one walk and as data by another.  Each goes through the children on its own, with its own
account of the messages that are left and of the tokens that are not shown; what they show is the same.  With trivia, the
tokens that they show are the source, piece by piece.

* `NodeDump.print` — data as text, an element to a line.
* `Dump.element_eq_prints` — that is what the walk for text writes.
* `NodeDump.Tile` — tokens side by side.
* `NodeDump.text_eq_print` — the dumps of a finished tree agree. -/

namespace TreeProjection

namespace NodeDump

/-! ## Data as text -/

/-- The line of an element: two blanks for each level above it, its kind, its range, and its message or its text in
quotes, if it has one. -/
def lineAt (depth : Nat) (d : NodeDump) : String :=
  margin depth ++ d.kind ++ s!" [{d.start}..{d.stop}]" ++
    ((d.message.or d.text).elim "" fun shown => " " ++ Text.quoted shown) ++ "\n"

mutual

/-- **Data as text**: an element on a line, and those below it on the next lines, one level deeper. -/
def print (depth : Nat) : NodeDump → String
  | ⟨kind, start, stop, text, message, children⟩ =>
    lineAt depth ⟨kind, start, stop, text, message, []⟩ ++ prints (depth + 1) children

/-- Elements side by side as text. -/
def prints (depth : Nat) : List NodeDump → String
  | [] => ""
  | d :: rest => print depth d ++ prints depth rest

end

/-- Elements side by side, and then others. -/
theorem prints_append (depth : Nat) (ds es : List NodeDump) :
    prints depth (ds ++ es) = prints depth ds ++ prints depth es := by
  induction ds with
  | nil => simp [prints]
  | cons d ds ih => rw [List.cons_append, prints, prints, ih, String.append_assoc]

end NodeDump

namespace Dump

open NodeDump (margin lineAt print prints ofElement ofElements)

variable (l : Language) (trivia : Bool)

/-- A line of a dump is that of a token with its text. -/
theorem line_token (depth : Nat) (kind : Kind) (start length : Nat) (text : String) :
    line l ⟨true, trivia⟩ depth kind start length (some text) =
      lineAt depth ⟨l.elementName kind, start, start + length, some text, none, []⟩ := rfl

/-- A line of a dump is that of a node with its message, if it has one. -/
theorem line_node (depth : Nat) (kind : Kind) (start length : Nat) (message : Option String) :
    line l ⟨true, trivia⟩ depth kind start length message =
      lineAt depth ⟨l.elementName kind, start, start + length, none, message, []⟩ := by
  cases message <;> rfl

mutual

/-- **An element is dumped as its data are written**, and the same messages are left. -/
theorem element_eq_prints : ∀ (t : GreenTree) (depth start : Nat) (messages : List String),
    element l ⟨true, trivia⟩ depth start messages t =
      (prints depth (ofElement l ⟨true, trivia⟩ start messages t).1, (ofElement l ⟨true, trivia⟩ start messages t).2)
  | .token t, depth, start, messages => by
      rw [element, ofElement, line_token]
      split
      · simp [prints, print]
      · rfl
  | .node kind children, depth, start, messages => by
      have hbelow := elements_eq_prints children (depth + 1) start (takeMessage kind messages).2
      rw [element, ofElement]
      simp only [hbelow, line_node, prints, print, String.append_empty]

/-- Elements side by side are dumped as their data are written. -/
theorem elements_eq_prints : ∀ (ts : List GreenTree) (depth start : Nat) (messages : List String),
    elements l ⟨true, trivia⟩ depth start messages ts =
      (prints depth (ofElements l ⟨true, trivia⟩ start messages ts).1, (ofElements l ⟨true, trivia⟩ start messages ts).2)
  | [], depth, start, messages => rfl
  | t :: rest, depth, start, messages => by
      have hfirst := element_eq_prints t depth start messages
      have hothers := elements_eq_prints rest depth (start + t.length) (ofElement l ⟨true, trivia⟩ start messages t).2
      rw [elements, ofElements]
      simp only [hfirst, hothers, NodeDump.prints_append]

end

end Dump

/-! ## Tokens side by side -/

/-- The texts of tokens, put together, are as long as the tokens. -/
theorem HostText.utf8ByteSize_join (ts : List HostToken) :
    (String.join (ts.map HostToken.text)).utf8ByteSize = lengthOf ts := by
  induction ts with
  | nil => rfl
  | cons t ts ih =>
      rw [List.map_cons, String.join_cons, String.utf8ByteSize_append, ih, lengthOf, lengthOf, List.map_cons, List.sum_cons]

namespace NodeDump

variable (l : Language)

/-- The data of tokens that follow each other from an offset on. -/
def tokensFrom (start : Nat) : List HostToken → List NodeDump
  | [] => []
  | t :: rest =>
    ⟨l.elementName t.kind, start, start + t.text.utf8ByteSize, some t.text, none, []⟩ ::
      tokensFrom (start + t.text.utf8ByteSize) rest

/-- Tokens, and then others. -/
theorem tokensFrom_append (start : Nat) (ts us : List HostToken) :
    tokensFrom l start (ts ++ us) = tokensFrom l start ts ++ tokensFrom l (start + HostText.lengthOf ts) us := by
  induction ts generalizing start with
  | nil => rfl
  | cons t ts ih => simp [tokensFrom, ih, HostText.lengthOf, Nat.add_assoc]

/-- **Data side by side**, from one offset to another: each has a text, begins where the one before it ends, and is as
long as its text. -/
def Tile (start stop : Nat) : List NodeDump → Prop
  | [] => start = stop
  | d :: rest => d.start = start ∧ (∃ text, d.text = some text ∧ d.stop = start + text.utf8ByteSize) ∧ Tile d.stop stop rest

/-- Tokens that follow each other are side by side. -/
theorem tile_tokensFrom (start : Nat) (ts : List HostToken) :
    Tile start (start + HostText.lengthOf ts) (tokensFrom l start ts) := by
  induction ts generalizing start with
  | nil => rfl
  | cons t ts ih =>
      refine ⟨rfl, ⟨t.text, rfl, rfl⟩, ?_⟩
      rw [HostText.lengthOf, List.map_cons, List.sum_cons, ← Nat.add_assoc]
      exact ih _

/-- Their texts are those of the tokens. -/
theorem filterMap_text_tokensFrom (start : Nat) (ts : List HostToken) :
    (tokensFrom l start ts).filterMap NodeDump.text = ts.map HostToken.text := by
  induction ts generalizing start with
  | nil => rfl
  | cons t ts ih => simp [tokensFrom, ih]

/-- The data of the tokens among those of elements. -/
def tokens (ds : List NodeDump) : List NodeDump := (flattens ds).filter (·.text.isSome)

/-- The tokens of elements side by side. -/
theorem tokens_append (ds es : List NodeDump) : tokens (ds ++ es) = tokens ds ++ tokens es := by
  rw [tokens, flattens_append, List.filter_append, tokens, tokens]

variable (spans : Bool)

mutual

/-- **With trivia, all tokens of an element are shown**, one after the other. -/
theorem tokens_ofElement : ∀ (t : GreenTree) (start : Nat) (messages : List String),
    tokens (ofElement l ⟨spans, true⟩ start messages t).1 = tokensFrom l start t.tokens
  | .token t, start, messages => by
      simp [ofElement, Dump.shows, tokens, flattens, flatten, GreenTree.tokens, tokensFrom]
  | .node kind children, start, messages => by
      have hbelow := tokens_ofElements children start (Dump.takeMessage kind messages).2
      simpa [ofElement, tokens, flattens, flatten, GreenTree.tokens] using hbelow

/-- With trivia, all tokens of elements side by side are shown, one after the other. -/
theorem tokens_ofElements : ∀ (ts : List GreenTree) (start : Nat) (messages : List String),
    tokens (ofElements l ⟨spans, true⟩ start messages ts).1 = tokensFrom l start (GreenTree.tokensOf ts)
  | [], start, messages => rfl
  | t :: rest, start, messages => by
      rw [ofElements, tokens_append, tokens_ofElement t, tokens_ofElements rest, GreenTree.tokensOf, tokensFrom_append,
        GreenTree.lengthOf_tokens]

end

/-- **The dumps of a finished tree agree**, whatever the language, and whether or not trivia are shown: the text is the
data, written an element to a line.  With trivia, the tokens in the data are side by side over all of the tree's text,
and their texts put together are that text. -/
theorem text_eq_print {b : GreenBuilder} {t : HostTree} (h : b.finish = .ok t) (trivia : Bool) :
    Dump.text l ⟨true, trivia⟩ t = (ofTree l ⟨true, trivia⟩ t).print 0 ∧
      let shown := (ofTree l ⟨spans, true⟩ t).flatten.filter (·.text.isSome)
      String.join (shown.filterMap NodeDump.text) = t.green.text ∧ Tile 0 t.green.text.utf8ByteSize shown := by
  have hroot : t.green.isNode = true := by
    obtain ⟨-, -, -, -, hnode, -⟩ := GreenBuilder.finish_eq_ok h
    exact hnode
  have hone : ∀ o, (ofElement l o 0 (t.errors.map ErrorElement.message) t.green).1 = [ofTree l o t] :=
    fun o => ofElement_ofTree l o hroot
  have htokens : (ofTree l ⟨spans, true⟩ t).flatten.filter (·.text.isSome) = tokensFrom l 0 t.green.tokens := by
    rw [← tokens_ofElement l spans t.green 0 (t.errors.map ErrorElement.message), hone, tokens, flattens, flattens,
      List.append_nil]
  constructor
  · rw [Dump.text, Dump.element_eq_prints, hone, prints, prints, String.append_empty]
  · simp only [htokens]
    constructor
    · rw [filterMap_text_tokensFrom]
      rfl
    · have htile := tile_tokensFrom l 0 t.green.tokens
      rw [Nat.zero_add, ← HostText.utf8ByteSize_join] at htile
      exact htile

/-- Trivia on all sides, with error elements that are nested and one that holds nothing.  They are tokens side by side like
the others, and without them the two dumps show less, but the same. -/
theorem text_eq_print_call : ∃ (b : GreenBuilder) (t : HostTree), b.finish = .ok t ∧
    (ofTree Sample.language ⟨true, true⟩ t).flatten.filterMap NodeDump.text =
      [" ", "x", " ", "=", " ", "// ", "\n ", "1", " ", ";", " "] ∧
    Dump.text Sample.language ⟨true, false⟩ t = (ofTree Sample.language ⟨true, false⟩ t).print 0 ∧
    Tile 0 t.green.text.utf8ByteSize ((ofTree Sample.language ⟨true, true⟩ t).flatten.filter (·.text.isSome)) := by
  have hrun : ∃ t, (BuilderCall.runAll (.ofText (Sample.cut " x = // \n 1 ; ") Sample.language)
      GreenBuilder.sampleCalls >>= GreenBuilder.finish) = .ok t ∧
        (ofTree Sample.language ⟨true, true⟩ t).flatten.filterMap NodeDump.text =
          [" ", "x", " ", "=", " ", "// ", "\n ", "1", " ", ";", " "] := by decide +kernel
  obtain ⟨t, hall, htexts⟩ := hrun
  obtain ⟨b, -, hfinish⟩ := BuilderCall.exists_of_bind hall
  obtain ⟨hprint, -, -⟩ := text_eq_print Sample.language true hfinish false
  obtain ⟨-, -, htile⟩ := text_eq_print Sample.language true hfinish true
  exact ⟨b, t, hfinish, htexts, hprint, htile⟩

end NodeDump

end TreeProjection
