import Wiring.CommandLine.Arguments
import Wiring.CommandLine.Style
/-!
# Help

What is shown to those who ask for help on the program or on one of its commands.
-/

namespace Wiring.CommandLine

/-- The name and the version of the program. -/
def versionText : String := "wiregraph 0.1.0\n"

/-- What an option is for. -/
def Flag.purpose (level : Level) (full : Bool) : Flag → String
  | .verbose => "Enable debug logging"
  | .quiet => "Only log errors"
  | .config => "Path to the resolver configuration file"
  | .format => "Output format (text, json) [default: text]"
  | .output => "Write the plan to this file instead of stdout"
  | .component => "Show the tree of this component only"
  | .help =>
    if level ≠ .top then "Print help"
    else if full then "Print help (see a summary with '-h')"
    else "Print help (see more with '--help')"
  | .version => "Print version"

/-- How an option is written, in plain characters. -/
def Flag.usage (f : Flag) : String :=
  s!"-{f.letter}, --{f.word}" ++ if f.takesValue then s!" <{f.word.toUpper}>" else ""

/-- What is typed as it stands. -/
def literal (colours : Bool) (text : String) : String := Style.bold.paint colours text

/-- What stands above or before a part of the help. -/
def heading (colours : Bool) (text : String) : String :=
  if colours then Style.bold.start ++ Style.underlined.start ++ text ++ Style.stop else text

/-- How an option is written. -/
def Flag.styledUsage (colours : Bool) (f : Flag) : String :=
  literal colours s!"-{f.letter}" ++ ", " ++ literal colours s!"--{f.word}" ++
    if f.takesValue then s!" <{f.word.toUpper}>" else ""

/-- What the program or a command is for. -/
def Level.purpose (full : Bool) : Level → String
  | .top =>
    if full then
      "wiregraph resolves component declarations, claims and type information from a catalog " ++
      "file into an ordered construction plan, reporting unresolved, ambiguous and circular " ++
      "dependencies."
    else "Resolve dependency-injection component graphs into construction plans"
  | .resolve => "Resolve a catalog and print the construction plan"
  | .tree => "Show dependency trees of a resolved catalog"
  | .help => "Print this message or the help of the given subcommand(s)"

/-- The words that a level is called by. -/
def Level.call : Level → String
  | .top => "wiregraph"
  | .resolve => "wiregraph resolve"
  | .tree => "wiregraph tree"
  | .help => "wiregraph help"

/-- What follows these words. -/
def Level.operands : Level → String
  | .top => "[OPTIONS] <COMMAND>"
  | .resolve | .tree => "[OPTIONS] <CATALOG>"
  | .help => "[COMMAND]..."

/-- The line that shows how a level is called. -/
def Level.usageLine (colours : Bool) (level : Level) : String :=
  heading colours "Usage:" ++ " " ++ literal colours level.call ++ " " ++ level.operands ++ "\n"

/-- The line about a command. -/
def commandLine (colours : Bool) (name : String) (level : Level) : String :=
  let gap := String.ofList (List.replicate (9 - name.length) ' ')
  s!"  {literal colours name}{gap}{level.purpose false}\n"

/-- The part of the help on what stands besides options. -/
def Level.operandsText (colours : Bool) : Level → String
  | .top =>
    heading colours "Commands:" ++ "\n" ++ commandLine colours "resolve" .resolve ++
      commandLine colours "tree" .tree ++ commandLine colours "help" .help
  | .resolve | .tree =>
    heading colours "Arguments:" ++ "\n  <CATALOG>  Catalog file to resolve\n"
  | .help =>
    heading colours "Arguments:" ++ "\n  [COMMAND]...  Print help for the subcommand(s)\n"

/-- The lines about an option, when usages take up to `width` characters. -/
def Flag.lines (colours : Bool) (level : Level) (full : Bool) (width : Nat) (f : Flag) : String :=
  if full && level = .top then
    s!"  {f.styledUsage colours}\n          {f.purpose level full}\n"
  else
    let gap := String.ofList (List.replicate (width - f.usage.length + 2) ' ')
    s!"  {f.styledUsage colours}{gap}{f.purpose level full}\n"

/-- The part of the help on the options of a level. -/
def Level.optionsText (colours full : Bool) (level : Level) : String :=
  let width := (level.flags.map fun f => f.usage.length).foldl max 0
  let between := if full && level = .top then "\n" else ""
  if level.flags.isEmpty then ""
  else
    "\n" ++ heading colours "Options:" ++ "\n" ++
      between.intercalate (level.flags.map (Flag.lines colours level full width))

/-- The help on the program or on one of its commands. -/
def helpText (colours : Bool) (level : Level) (full : Bool) : String :=
  level.purpose full ++ "\n\n" ++ level.usageLine colours ++ "\n" ++
    level.operandsText colours ++ level.optionsText colours full

end Wiring.CommandLine
