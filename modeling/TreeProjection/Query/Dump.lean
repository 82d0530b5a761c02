import TreeProjection.Host.Tree
import TreeProjection.Text.Quoted

/-! # Dumps of host trees

A tree as text, one element to a line, and as nested data.  Both name the kinds, and both show at each
error node the message that belongs to it: the tree holds the messages in the order of the error nodes.

* `Dump.text` — a tree as text.
* `NodeDump` — a tree as data, with `NodeDump.compact` and `NodeDump.pretty` for its notation. -/

namespace TreeProjection

/-- What a dump shows. -/
structure DumpOptions where
  /-- Whether the places of elements are shown. -/
  spans : Bool := false
  /-- Whether trivia are shown. -/
  trivia : Bool := false
  deriving DecidableEq, Repr, Inhabited

namespace Dump

/-- The message of a node of a kind, and the messages that are left: an error node takes the next one. -/
def takeMessage (kind : Kind) (messages : List String) : Option String × List String :=
  if kind = .error then (messages.head?, messages.tail) else (none, messages)

variable (l : Language) (o : DumpOptions)

/-- Whether a token is shown. -/
def shows (t : HostToken) : Bool := o.trivia || !l.isTrivia t.kind

/-- The text of a place, if places are shown. -/
def spanText (start length : Nat) : String :=
  if o.spans then s!" [{start}..{start + length}]" else ""

/-- A line of a dump: blanks, a kind, a place and a quoted text. -/
def line (indent : Nat) (kind : Kind) (start length : Nat) (text : Option String) : String :=
  String.join (List.replicate indent "  ") ++ l.elementName kind ++ spanText o start length ++
    (match text with
      | some t => " " ++ Text.quoted t
      | none => "") ++ "\n"

mutual

/-- The lines of an element at an offset, and the messages that are left. -/
def element (indent start : Nat) (messages : List String) : GreenTree → String × List String
  | .token t =>
    (if shows l o t then line l o indent t.kind start t.text.utf8ByteSize (some t.text) else "",
      messages)
  | .node kind children =>
    let (message, messages) := takeMessage kind messages
    let head := line l o indent kind start (GreenTree.lengths children) message
    let (below, messages) := elements (indent + 1) start messages children
    (head ++ below, messages)

/-- The lines of elements side by side, and the messages that are left. -/
def elements (indent start : Nat) (messages : List String) : List GreenTree → String × List String
  | [] => ("", messages)
  | t :: rest =>
    let (first, messages) := element indent start messages t
    let (others, messages) := elements indent (start + t.length) messages rest
    (first ++ others, messages)

end

/-- A tree as text. -/
def text (t : HostTree) : String :=
  (element l o 0 0 (t.errors.map ErrorElement.message) t.green).1

end Dump

/-- An element as data. -/
structure NodeDump where
  /-- The name of its kind. -/
  kind : String
  /-- The offset of its start. -/
  start : Nat
  /-- The offset of its end. -/
  stop : Nat
  /-- The text, for a token. -/
  text : Option String
  /-- The message, for an error node. -/
  message : Option String
  /-- The elements below, for a node. -/
  children : List NodeDump
  deriving Repr, Inhabited

namespace NodeDump

variable (l : Language) (o : DumpOptions)

mutual

/-- An element at an offset as data, if it is shown, and the messages that are left. -/
def ofElement (start : Nat) (messages : List String) : GreenTree → List NodeDump × List String
  | .token t =>
    (if Dump.shows l o t then
      [⟨l.elementName t.kind, start, start + t.text.utf8ByteSize, some t.text, none, []⟩] else [],
      messages)
  | .node kind children =>
    let (message, messages) := Dump.takeMessage kind messages
    let (below, messages) := ofElements start messages children
    ([⟨l.elementName kind, start, start + GreenTree.lengths children, none, message, below⟩], messages)

/-- Elements side by side as data, and the messages that are left. -/
def ofElements (start : Nat) (messages : List String) :
    List GreenTree → List NodeDump × List String
  | [] => ([], messages)
  | t :: rest =>
    let (first, messages) := ofElement start messages t
    let (others, messages) := ofElements (start + t.length) messages rest
    (first ++ others, messages)

end

/-- A tree as data. -/
def ofTree (t : HostTree) : NodeDump :=
  ((ofElement l o 0 (t.errors.map ErrorElement.message) t.green).1.head?).getD default

/-! ## Notation -/

/-- The characters that stand for a character in a quoted text of the notation. -/
def escapeChar (c : Char) : List Char :=
  match c with
  | '"' => ['\\', '"']
  | '\\' => ['\\', '\\']
  | '\n' => ['\\', 'n']
  | '\r' => ['\\', 'r']
  | '\t' => ['\\', 't']
  | '\x08' => ['\\', 'b']
  | '\x0c' => ['\\', 'f']
  | c =>
    if c.toNat < 0x20 then
      let digits := Text.hexDigits c.toNat
      ['\\', 'u'] ++ List.replicate (4 - digits.length) '0' ++ digits
    else [c]

/-- A text in the notation. -/
def quotedText (s : String) : String := String.ofList ('"' :: s.toList.flatMap escapeChar ++ ['"'])

/-- The fields of an element that are not elements themselves.  Fields without a value are left out. -/
def plainFields (d : NodeDump) : List (String × String) :=
  [("kind", quotedText d.kind), ("start", toString d.start), ("end", toString d.stop)] ++
    (d.text.map fun t => ("text", quotedText t)).toList ++
    (d.message.map fun m => ("message", quotedText m)).toList

mutual

/-- An element in the notation, on one line and without blanks. -/
def compact (d : NodeDump) : String :=
  match d with
  | ⟨kind, start, stop, text, message, children⟩ =>
    let fields := (plainFields ⟨kind, start, stop, text, message, []⟩).map fun f =>
      quotedText f.1 ++ ":" ++ f.2
    let below := if children.isEmpty then [] else
      [quotedText "children" ++ ":[" ++ ",".intercalate (compacts children) ++ "]"]
    "\x7b" ++ ",".intercalate (fields ++ below) ++ "\x7d"

/-- Elements in the notation, on one line each. -/
def compacts : List NodeDump → List String
  | [] => []
  | d :: rest => compact d :: compacts rest

end

/-- Blanks for a depth. -/
def margin (depth : Nat) : String := String.join (List.replicate depth "  ")

mutual

/-- An element in the notation, with a line for each field, at a depth. -/
def prettyAt (depth : Nat) (d : NodeDump) : String :=
  match d with
  | ⟨kind, start, stop, text, message, children⟩ =>
    let fields := (plainFields ⟨kind, start, stop, text, message, []⟩).map fun f =>
      margin (depth + 1) ++ quotedText f.1 ++ ": " ++ f.2
    let below := if children.isEmpty then [] else
      [margin (depth + 1) ++ quotedText "children" ++ ": [\n" ++
        ",\n".intercalate (prettiesAt (depth + 2) children) ++ "\n" ++ margin (depth + 1) ++ "]"]
    "\x7b\n" ++ ",\n".intercalate (fields ++ below) ++ "\n" ++ margin depth ++ "\x7d"

/-- Elements in the notation, at a depth. -/
def prettiesAt (depth : Nat) : List NodeDump → List String
  | [] => []
  | d :: rest => (margin depth ++ prettyAt depth d) :: prettiesAt depth rest

end

/-- An element in the notation, with a line for each field. -/
def pretty (d : NodeDump) : String := prettyAt 0 d

end NodeDump

end TreeProjection
