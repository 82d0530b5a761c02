import TreeProjection.Projection.Trace

/-! # Commands and their arguments

A command line names an action and then says what to do it to.  Arguments that begin with a dash are
options, in a short form that can be clustered or in a long one; a value follows its option as the next
argument or attached.  After two dashes every argument is a path.

* `Command.ofArguments` — the command that a command line asks for.
* `Settings.read` — the settings given by the arguments of one action. -/

namespace TreeProjection

/-- Why a command line is not a command. -/
inductive Refusal where
  /-- It asks for help. -/
  | help
  /-- It does not follow the rules. -/
  | misuse
  deriving DecidableEq, Repr, Inhabited

/-- When output is coloured. -/
inductive ColourChoice where
  /-- If people are there to see it. -/
  | auto
  /-- Always. -/
  | always
  /-- Never. -/
  | never
  deriving DecidableEq, Repr, Inhabited

namespace ColourChoice

/-- The choice of a name. -/
def ofName? : String → Option ColourChoice
  | "auto" => some auto
  | "always" => some always
  | "never" => some never
  | _ => none

/-- Whether output is coloured, given whether it goes to a terminal. -/
def colours (terminal : Bool) : ColourChoice → Bool
  | auto => terminal
  | always => true
  | never => false

end ColourChoice

/-! ## Settings -/

/-- What an argument sets. -/
inductive Setting where
  /-- The path of the source. -/
  | path
  /-- The source itself. -/
  | text
  /-- The name of its language. -/
  | language
  /-- The name of the rule to begin with. -/
  | entry
  /-- When output is coloured. -/
  | colour
  /-- Whether spans are shown. -/
  | spans
  /-- Whether trivia is shown. -/
  | trivia
  /-- Whether data is shown. -/
  | json
  /-- How much is told. -/
  | verbose
  /-- That help is wanted. -/
  | help
  deriving DecidableEq, Repr, Inhabited

namespace Setting

/-- The letter of an option. -/
def letter? : Setting → Option Char
  | text => some 's'
  | language => some 'l'
  | entry => some 'e'
  | verbose => some 'v'
  | help => some 'h'
  | _ => none

/-- The long name of an option. -/
def name? : Setting → Option String
  | text => some "source"
  | language => some "lang"
  | entry => some "entry"
  | colour => some "color"
  | spans => some "spans"
  | trivia => some "trivia"
  | json => some "json"
  | help => some "help"
  | _ => none

/-- Whether an option has a value. -/
def hasValue : Setting → Bool
  | path | text | language | entry | colour => true
  | _ => false

/-- Whether a setting can be given more than once. -/
def repeats (s : Setting) : Bool := s == verbose

/-- Whether a value is one that the setting allows. -/
def allows : Setting → String → Bool
  | path, value => !value.isEmpty
  | colour, value => (ColourChoice.ofName? value).isSome
  | _, _ => true

end Setting

/-- The settings that were given, with their values. -/
abbrev Settings := List (Setting × String)

namespace Settings

/-- The value of a setting. -/
def value? (given : Settings) (s : Setting) : Option String :=
  (given.find? (·.1 == s)).map Prod.snd

/-- Whether a setting was given. -/
def has (given : Settings) (s : Setting) : Bool := given.any (·.1 == s)

/-- How often a setting was given. -/
def count (given : Settings) (s : Setting) : Nat := (given.filter (·.1 == s)).length

/-- Add a setting. -/
def give (given : Settings) (s : Setting) (value : String := "") : Except Refusal Settings :=
  if s = .help then .error .help
  else if (given.has s && !s.repeats) || (s.hasValue && !s.allows value) then .error .misuse
  else .ok ((s, value) :: given)

/-- Add the settings of a cluster of letters.  The last one may be left waiting for its value. -/
def giveLetters (allowed : List Setting) (given : Settings) :
    List Char → Except Refusal (Settings × Option Setting)
  | [] => .ok (given, none)
  | letter :: rest =>
    match allowed.find? (·.letter? == some letter) with
    | none => .error .misuse
    | some s =>
      if s.hasValue then
        match rest with
        | [] => .ok (given, some s)
        | '=' :: value => (given.give s (String.ofList value)).map (·, none)
        | value => (given.give s (String.ofList value)).map (·, none)
      else
        match given.give s with
        | .ok given => giveLetters allowed given rest
        | .error e => .error e

/-- Add the setting of a long name, which may have its value after an equals sign. -/
def giveNamed (allowed : List Setting) (given : Settings) (word : List Char) :
    Except Refusal (Settings × Option Setting) :=
  let name := String.ofList (word.takeWhile (· != '='))
  match allowed.find? (·.name? == some name), word.dropWhile (· != '=') with
  | none, _ => .error .misuse
  | some s, [] => if s.hasValue then .ok (given, some s) else (given.give s).map (·, none)
  | some s, _ :: value =>
    if s.hasValue then (given.give s (String.ofList value)).map (·, none) else .error .misuse

/-- Add paths only. -/
def givePaths (allowed : List Setting) (given : Settings) : List String → Except Refusal Settings
  | [] => .ok given
  | path :: rest =>
    if allowed.contains .path then
      match given.give .path path with
      | .ok given => givePaths allowed given rest
      | .error e => .error e
    else .error .misuse

/-- Add the settings of arguments, where an option may be waiting for its value. -/
def readFrom (allowed : List Setting) (given : Settings) (waiting : Option Setting) :
    List String → Except Refusal Settings
  | [] => if waiting.isSome then .error .misuse else .ok given
  | argument :: rest =>
    match argument.toList, waiting with
    | '-' :: _ :: _, some _ => .error .misuse
    | ['-', '-'], none => givePaths allowed given rest
    | '-' :: '-' :: word, none =>
      match giveNamed allowed given word with
      | .ok (given, waiting) => readFrom allowed given waiting rest
      | .error e => .error e
    | '-' :: letter :: letters, none =>
      match giveLetters allowed given (letter :: letters) with
      | .ok (given, waiting) => readFrom allowed given waiting rest
      | .error e => .error e
    | _, some s =>
      match given.give s argument with
      | .ok given => readFrom allowed given none rest
      | .error e => .error e
    | _, none =>
      match givePaths allowed given [argument] with
      | .ok given => readFrom allowed given none rest
      | .error e => .error e

/-- The settings that arguments give, of those that are allowed. -/
def read (allowed : List Setting) (arguments : List String) : Except Refusal Settings :=
  readFrom allowed [] none arguments

end Settings

/-! ## Commands -/

/-- Where a source comes from and how it is parsed. -/
structure SourceSettings where
  /-- The path of the source. -/
  path : Option String := none
  /-- The source itself. -/
  text : Option String := none
  /-- The name of its language. -/
  language : Option String := none
  /-- The name of the rule to begin with. -/
  entry : Option String := none
  deriving DecidableEq, Repr, Inhabited

/-- The source settings among those that were given. -/
def Settings.source (given : Settings) : SourceSettings where
  path := given.value? .path
  text := given.value? .text
  language := given.value? .language
  entry := given.value? .entry

/-- When output is coloured, by the settings that were given. -/
def Settings.colour (given : Settings) : ColourChoice :=
  ((given.value? .colour).bind ColourChoice.ofName?).getD .auto

/-- What there is to do. -/
inductive Command where
  /-- Show the tree of a source. -/
  | tree (source : SourceSettings) (spans trivia json : Bool)
  /-- Show the recognizer's tree of a source. -/
  | parseTree (source : SourceSettings)
  /-- Show the errors of a source. -/
  | check (source : SourceSettings) (colour : ColourChoice)
  /-- Show the steps of parsing a source. -/
  | trace (source : SourceSettings) (verbosity : Verbosity) (colour : ColourChoice)
  /-- List the languages. -/
  | languages
  deriving DecidableEq, Repr, Inhabited

namespace Command

/-- The names of the actions. -/
inductive Action where
  /-- Show the tree of a source. -/
  | tree
  /-- Show the recognizer's tree of a source. -/
  | parseTree
  /-- Show the errors of a source. -/
  | check
  /-- Show the steps of parsing a source. -/
  | trace
  /-- List the languages. -/
  | languages
  deriving DecidableEq, Repr, Inhabited

namespace Action

/-- The action of a name. -/
def ofName? : String → Option Action
  | "tree" => some tree
  | "parse-tree" => some parseTree
  | "check" => some check
  | "trace" => some trace
  | "langs" => some languages
  | _ => none

/-- The settings that an action allows. -/
def settings : Action → List Setting
  | tree => [.path, .text, .language, .entry, .spans, .trivia, .json, .help]
  | parseTree => [.path, .text, .language, .entry, .help]
  | check => [.path, .text, .language, .entry, .colour, .help]
  | trace => [.path, .text, .language, .entry, .verbose, .colour, .help]
  | languages => [.help]

/-- An action with its settings. -/
def command (given : Settings) : Action → Command
  | tree => .tree given.source (given.has .spans) (given.has .trivia) (given.has .json)
  | parseTree => .parseTree given.source
  | check => .check given.source given.colour
  | trace => .trace given.source (.ofCount (given.count .verbose)) given.colour
  | languages => .languages

end Action

/-- The answer to a request for help by name. -/
def refuseHelp : List String → Refusal
  | [] => .help
  | [name] => if name = "help" || (Action.ofName? name).isSome then .help else .misuse
  | _ => .misuse

/-- The answer to a command line that does not begin with an action. -/
def refuse (arguments : List String) : Refusal :=
  match Settings.read [.help] arguments with
  | .error e => e
  | .ok _ => .misuse

/-- The command that a command line asks for. -/
def ofArguments : List String → Except Refusal Command
  | [] => .error .misuse
  | name :: arguments =>
    match Action.ofName? name with
    | some action => (Settings.read action.settings arguments).map (action.command ·)
    | none =>
      .error (if name = "help" then refuseHelp arguments else refuse (name :: arguments))

/-- What is told of the command line. -/
def usage : String :=
  Text.joinLines ["Usage: graft <COMMAND>", "", "Commands:",
    "  tree        Show the tree of a source",
    "  parse-tree  Show the recognizer's tree of a source",
    "  check       Show the syntax errors of a source",
    "  trace       Show the steps of parsing a source",
    "  langs       List the languages", "",
    "Sources: a path, - for standard input, or -s TEXT; also -l LANG and -e RULE."]

end Command

end TreeProjection
