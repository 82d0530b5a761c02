import TreeProjection.Command.Arguments
import TreeProjection.Failure
import TreeProjection.Host.Green
import TreeProjection.Sample.Grammar
import TreeProjection.Sample.Lexer

/-! # What a command works on

A source, its language and the rule to begin with.  The language is the one that is named, or the one of
the path's extension, or else the sample language.

* `SupportedLanguage` — a language with all that it takes to parse it.
* `SourceSettings.prepare` — what settings ask for, given what can be read. -/

namespace TreeProjection

/-! ## Reading -/

/-- Where a source is read from. -/
inductive Location where
  /-- What is piped in. -/
  | standardInput
  /-- A file. -/
  | file (path : String)
  deriving DecidableEq, Repr, Inhabited

namespace Location

/-- The location of a path. -/
def ofPath (path : String) : Location := if path = "-" then standardInput else file path

/-- The name of a location in reports. -/
def display : Location → String
  | standardInput => "<stdin>"
  | file path => path

end Location

/-- Why nothing could be read. -/
inductive ReadFailure where
  /-- There is no such file. -/
  | notFound
  /-- A folder stands there. -/
  | isFolder
  /-- A file stands where the path goes on as in a folder. -/
  | notFolder
  /-- A name in the path is longer than names can be. -/
  | nameTooLong
  /-- What is there is not text. -/
  | notText
  /-- The system gives a description and a code. -/
  | system (description : String) (code : Nat)
  deriving DecidableEq, Repr, Inhabited

namespace ReadFailure

/-- A description with the system's code. -/
def coded (description : String) (code : Nat) : String := s!"{description} (os error {code})"

/-- The text shown for a failure to read. -/
def message : ReadFailure → String
  | notFound => coded "No such file or directory" 2
  | isFolder => coded "Is a directory" 21
  | notFolder => coded "Not a directory" 20
  | nameTooLong => coded "File name too long" 36
  | notText => "stream did not contain valid UTF-8"
  | system description code => coded description code

end ReadFailure

/-- The contents of locations. -/
abbrev Reader := Location → Except ReadFailure ByteArray

/-- Why a command has nothing to work on. -/
inductive InputError where
  /-- The source is given twice. -/
  | bothSources
  /-- The source is not given. -/
  | missingSource
  /-- The source could not be read. -/
  | unreadable (location : Location) (why : ReadFailure)
  /-- There is no language of the name. -/
  | unknownLanguage (name : String)
  /-- The language has no rule of the name. -/
  | unknownRule (language rule : String)
  deriving DecidableEq, Repr, Inhabited

namespace InputError

/-- The text shown for an error. -/
def message : InputError → String
  | bothSources => "cannot use both --source and positional SOURCE"
  | missingSource => "source required (positional or --source)"
  | unreadable .standardInput why => s!"failed to read stdin: {why.message}"
  | unreadable (.file path) why => s!"failed to read '{path}': {why.message}"
  | unknownLanguage name => s!"unknown language: '{name}'"
  | unknownRule language rule => s!"unknown rule '{rule}' for language '{language}'"

/-- What helps after an error. -/
def hint : InputError → List String
  | unknownLanguage _ => ["", "Run 'graft langs' for the full list."]
  | _ => []

end InputError

/-! ## Languages -/

/-- A language with all that it takes to parse it. -/
structure SupportedLanguage where
  /-- Its rules. -/
  grammar : Grammar
  /-- The extensions of its files. -/
  extensions : List String
  /-- How its sources are cut into tokens. -/
  cut : String → HostText

namespace SupportedLanguage

/-- The sample language. -/
def sample : SupportedLanguage := ⟨Sample.grammar, ["sample", "smp"], Sample.cut⟩

/-- All supported languages. -/
def all : List SupportedLanguage := [sample]

/-- The name of a language. -/
def name (l : SupportedLanguage) : String := l.grammar.language.name

/-- Whether two names differ in case only. -/
def sameName (a b : String) : Bool := a.toLower == b.toLower

/-- The language of a name. -/
def ofName? (name : String) : Option SupportedLanguage :=
  all.find? fun l => sameName l.name name

/-- The language of an extension. -/
def ofExtension? (extension : String) : Option SupportedLanguage :=
  all.find? fun l => l.extensions.any (sameName · extension)

/-- The builder over a source, with a flag that no one sets. -/
def host (l : SupportedLanguage) (source : String) : Supervised GreenBuilder where
  builder := .ofText (l.cut source) l.grammar.language
  elements := l.grammar.language.elements

end SupportedLanguage

/-- What follows the last point of a path's last name, if there is something before that point. -/
def extension? (path : String) : Option String :=
  let name := (path.splitOn "/").getLastD ""
  match (name.splitOn ".").reverse with
  | last :: first :: others => if others.isEmpty && first.isEmpty then none else some last
  | _ => none

/-! ## Inputs -/

namespace SourceSettings

/-- The language of a source. -/
def supportedLanguage (s : SourceSettings) : Except InputError SupportedLanguage :=
  match s.language with
  | some name =>
    match SupportedLanguage.ofName? name with
    | some l => .ok l
    | none => .error (.unknownLanguage name)
  | none => .ok ((s.path.bind extension?).bind SupportedLanguage.ofExtension? |>.getD .sample)

/-- The source itself, or where it is to be read. -/
def origin (s : SourceSettings) : Except InputError (String ⊕ Location) :=
  match s.text, s.path with
  | some text, none => .ok (.inl text)
  | none, some path => .ok (.inr (.ofPath path))
  | some _, some _ => .error .bothSources
  | none, none => .error .missingSource

/-- The location that is going to be read, if nothing is wrong before. -/
def location? (s : SourceSettings) : Option Location :=
  match s.supportedLanguage, s.origin with
  | .ok _, .ok (.inr l) => some l
  | _, _ => none

end SourceSettings

/-- The text at a location. -/
def Reader.text (read : Reader) (l : Location) : Except InputError String :=
  match read l with
  | .error why => .error (.unreadable l why)
  | .ok bytes =>
    match String.fromUTF8? bytes with
    | some text => .ok text
    | none => .error (.unreadable l .notText)

/-- What a command works on. -/
structure Input where
  /-- The language. -/
  language : SupportedLanguage
  /-- The rule to begin with. -/
  entry : RuleIndex
  /-- The source. -/
  source : String
  /-- The name of the source's location in reports. -/
  path : Option String

/-- The source, wherever it comes from. -/
def SourceSettings.load (s : SourceSettings) (read : Reader) : Except InputError String :=
  match s.origin with
  | .error e => .error e
  | .ok (.inl text) => .ok text
  | .ok (.inr l) => read.text l

/-- The rule of a language to begin with. -/
def SourceSettings.entryRule (s : SourceSettings) (language : SupportedLanguage) :
    Except InputError RuleIndex :=
  match s.entry with
  | none => .ok language.grammar.language.startRule
  | some rule =>
    match language.grammar.language.ruleIndex? rule with
    | some entry => .ok entry
    | none => .error (.unknownRule language.name rule)

/-- What settings ask for.  The language is looked for first, then the source, then the rule. -/
def SourceSettings.prepare (s : SourceSettings) (read : Reader) : Except InputError Input :=
  match s.supportedLanguage with
  | .error e => .error e
  | .ok language =>
    match s.load read, s.entryRule language with
    | .error e, _ => .error e
    | .ok _, .error e => .error e
    | .ok source, .ok entry =>
      .ok { language, entry, source, path := s.path.map fun p => (Location.ofPath p).display }

namespace Input

/-- The builder over the source. -/
def host (i : Input) : Supervised GreenBuilder := i.language.host i.source

/-- The language of the source. -/
def lang (i : Input) : Language := i.language.grammar.language

end Input

end TreeProjection
