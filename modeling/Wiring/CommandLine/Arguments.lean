/-!
# Arguments

`Arguments.parse` reads the words that follow the name of the program. Options may stand before or
after the command, and their values may be attached: `-fjson`, `-f=json`, `--format=json`. After
`--` no word is an option. Help and the version are shown as soon as they are asked for.
-/

namespace Wiring.CommandLine

/-- What can be done with a manifest. -/
inductive Command where
  /-- To show its plan in a format, or write it to a file. -/
  | resolve (catalog format : String) (output : Option String)
  /-- To show the trees of its roots, or of one component. -/
  | tree (catalog : String) (component : Option String)
deriving DecidableEq, Repr

/-- A command with what applies to all commands. -/
structure Invocation where
  /-- The command. -/
  command : Command
  /-- The settings file asked for. -/
  config : Option String
deriving DecidableEq, Repr

/-- The places where options can stand. -/
inductive Level where
  /-- Before the command. -/
  | top
  /-- After `resolve`. -/
  | resolve
  /-- After `tree`. -/
  | tree
  /-- After `help`, where only commands stand. -/
  | help
deriving DecidableEq, Repr

/-- The options. -/
inductive Flag where
  | verbose
  | quiet
  | config
  | format
  | output
  | component
  | help
  | version
deriving DecidableEq, Repr

namespace Flag

/-- The letter of an option. -/
def letter : Flag → Char
  | .verbose => 'v'
  | .quiet => 'q'
  | .config => 'c'
  | .format => 'f'
  | .output => 'o'
  | .component => 'p'
  | .help => 'h'
  | .version => 'V'

/-- The word of an option. -/
def word : Flag → String
  | .verbose => "verbose"
  | .quiet => "quiet"
  | .config => "config"
  | .format => "format"
  | .output => "output"
  | .component => "component"
  | .help => "help"
  | .version => "version"

/-- Whether a value follows. -/
def takesValue : Flag → Bool
  | .config | .format | .output | .component => true
  | .verbose | .quiet | .help | .version => false

/-- Whether the value is a path, which must not be empty. -/
def takesPath : Flag → Bool
  | .config | .output => true
  | _ => false

end Flag

/-- The options known at a level. -/
def Level.flags : Level → List Flag
  | .top => [.verbose, .quiet, .config, .help, .version]
  | .resolve => [.format, .output, .verbose, .quiet, .config, .help]
  | .tree => [.component, .verbose, .quiet, .config, .help]
  | .help => []

/-- Why arguments cannot be used. -/
inductive UsageError where
  /-- An option or a word has no place here. -/
  | unexpected (word : String)
  /-- An option lacks its value. -/
  | valueMissing (flag : Flag)
  /-- An option takes no value. -/
  | valueUnexpected (flag : Flag)
  /-- An option is given twice. -/
  | repeated (flag : Flag)
  /-- Two options exclude each other. -/
  | conflict (flag other : Flag)
  /-- There is no such command. -/
  | unknownCommand (word : String)
  /-- The command or the manifest is not given. -/
  | incomplete
deriving DecidableEq, Repr

/-- The wording of a usage error. -/
def UsageError.message : UsageError → String
  | .unexpected word => s!"unexpected argument '{word}' found"
  | .valueMissing f => s!"a value is required for '--{f.word}' but none was supplied"
  | .valueUnexpected f => s!"unexpected value for '--{f.word}' found; no more were expected"
  | .repeated f => s!"the argument '--{f.word}' cannot be used multiple times"
  | .conflict f g => s!"the argument '--{f.word}' cannot be used with '--{g.word}'"
  | .unknownCommand word => s!"unrecognized subcommand '{word}'"
  | .incomplete => "the following required arguments were not provided"

/-- What the arguments ask for besides a command. -/
inductive Stop where
  /-- Nothing that can be done. -/
  | usage (e : UsageError)
  /-- Help on a level, in full or in short. -/
  | help (level : Level) (full : Bool)
  /-- The version. -/
  | version
deriving DecidableEq, Repr

/-- What was given at a level. -/
structure Given where
  /-- The options with their values. -/
  flags : List (Flag × String) := []
  /-- The other words. -/
  words : List String := []
  /-- The option that was given last with its value as the next word, until it is settled. -/
  pending : Option (Flag × String) := none
deriving DecidableEq, Repr

namespace Given

/-- Whether an option was given. -/
def has (g : Given) (f : Flag) : Bool := (g.flags.lookup f).isSome

/-- Adds an option. -/
def add (g : Given) (f : Flag) (value : String) : Except Stop Given :=
  if g.has f then .error (.usage (.repeated f))
  else if f.takesPath && value.isEmpty then .error (.usage (.valueMissing f))
  else .ok { g with flags := g.flags ++ [(f, value)] }

/-- Adds the option that waits to be settled. -/
def settle (g : Given) : Except Stop Given :=
  match g.pending with
  | none => .ok g
  | some (f, value) => { g with pending := none }.add f value

/-- Adds a word that is no option: the manifest, of which there is one. -/
def addWord (g : Given) (word : String) : Except Stop Given :=
  if !g.words.isEmpty then .error (.usage (.unexpected word))
  else if word.isEmpty then .error (.usage .incomplete)
  else .ok { g with words := [word] }

/-- Rejects options that exclude each other. -/
def check (g : Given) : Except Stop Unit :=
  if g.has .verbose && g.has .quiet then .error (.usage (.conflict .verbose .quiet)) else .ok ()

end Given

/-- Whether a word can only be an option. -/
def isOption (word : String) : Bool := word.startsWith "-" && word != "-"

/-- Reads the letters of options in one word. The outcome may be an option whose value is the next
word. -/
def readLetters (level : Level) (word : String) :
    Given → List Char → Except Stop (Given × Option Flag)
  | g, [] => .ok (g, none)
  | g, c :: cs => do
    match level.flags.find? fun f => f.letter = c with
    | none => throw (.usage (.unexpected word))
    | some .help => throw (.help level false)
    | some .version => throw .version
    | some f =>
      if f.takesValue then
        match cs with
        | [] => return (g, some f)
        | '=' :: value => return (← g.add f (.ofList value), none)
        | value => return (← g.add f (.ofList value), none)
      else readLetters level word (← g.add f "") cs

/-- Reads an option that is a whole word, with its attached value. The outcome may be an option
whose value is the next word. -/
def readWord (level : Level) (word : String) (g : Given) : Except Stop (Given × Option Flag) := do
  let body := word.toList.drop 2
  let name := String.ofList (body.takeWhile (· != '='))
  let attached := (body.dropWhile (· != '=')).tail
  let hasValue := body.contains '='
  match level.flags.find? fun f => f.word = name with
  | none => throw (.usage (.unexpected word))
  | some f =>
    if f.takesValue then
      if hasValue then return (← g.add f (.ofList attached), none) else return (g, some f)
    else if hasValue then throw (.usage (.valueUnexpected f))
    else
      match f with
      | .help => throw (.help level true)
      | .version => throw .version
      | f => return (← g.add f "", none)

/-- Reads the arguments of a level. Before the command it stops at the first word that is no
option, and gives it with what follows; an option right before the command is not settled yet. -/
def readArguments (level : Level) : Given → List String → Except Stop (Given × List String)
  | g, [] => do return (← g.settle, [])
  | g, word :: rest => do
    if word = "--" then
      if level = .top then throw (.usage .incomplete)
      return (← rest.foldlM Given.addWord (← g.settle), [])
    if isOption word then
      let g ← g.settle
      let (g, waiting) ←
        if word.startsWith "--" then readWord level word g
        else readLetters level word g (word.toList.drop 1)
      match waiting, rest with
      | none, rest => readArguments level g rest
      | some f, value :: rest =>
        if isOption value then throw (.usage (.valueMissing f))
        readArguments level { g with pending := some (f, value) } rest
      | some f, [] => throw (.usage (.valueMissing f))
    else if level = .top then return (g, word :: rest)
    else readArguments level (← (← g.settle).addWord word) rest
termination_by _ words => words.length

/-- The invocation of a command, given the options before it. An option after the command
prevails, and what stands after the command is checked first. -/
def invocation (before : Given) (level : Level) (args : List String) : Except Stop Invocation := do
  let (g, _) ← readArguments level {} args
  g.check
  let [catalog] := g.words | throw (.usage .incomplete)
  let before ← before.settle
  before.check
  return {
    command :=
      match level with
      | .tree => .tree catalog (g.flags.lookup .component)
      | _ => .resolve catalog ((g.flags.lookup .format).getD "text") (g.flags.lookup .output)
    config := g.flags.lookup .config <|> before.flags.lookup .config }

/-- What the words after `help` ask for. -/
def helpOn : List String → Stop
  | [] => .help .top true
  | "resolve" :: rest => atEnd .resolve rest
  | "tree" :: rest => atEnd .tree rest
  | "help" :: rest => atEnd .help rest
  | word :: _ => .usage (.unknownCommand word)
where
  /-- Help on a level, below which there are no commands. -/
  atEnd (level : Level) : List String → Stop
    | [] => .help level true
    | word :: _ => .usage (.unknownCommand word)

/-- Reads all arguments. -/
def Arguments.parse (args : List String) : Except Stop Invocation := do
  let (g, rest) ← readArguments .top {} args
  match rest with
  | "resolve" :: rest => invocation g .resolve rest
  | "tree" :: rest => invocation g .tree rest
  | "help" :: rest => throw (helpOn rest)
  | word :: _ => throw (.usage (.unknownCommand word))
  | [] => throw (.usage .incomplete)

end Wiring.CommandLine
