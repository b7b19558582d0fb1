/-!
# Errors

`Error` lists the causes for which a resolution or the reading of its input fails, with the texts
that locate each one: the claim, the requester, the chain of declarations that led there.

* `Error.message` is the wording of each cause.
* `Error.withSuppressed` attaches the failures of sibling branches to an unresolved claim.
* `Advice` is an error with details and a suggestion for the reader; `Error.advise` chooses them.
* `Failure` is an error on its way to the reader, with the contexts added on the way.
-/

namespace Wiring

/-- Why a resolution, or the reading of its input, failed. -/
inductive Error where
  /-- Nothing satisfies a claim that must be satisfied. -/
  | unresolved (claim requester : String) (hints chain : List String) (suppressed : List Error)
  /-- Several components satisfy a single claim equally well. -/
  | ambiguous (claim requester : String) (candidates : List String)
  /-- A cycle goes through a type that no proxy can stand for. -/
  | circular (claim : String) (chain : List String)
  /-- An extension satisfies the claim only in a later round. -/
  | restartRequired (claim requester extension : String)
  /-- The rounds ran out before the awaited component appeared. -/
  | roundLimit (claim extension : String) (rounds : Nat)
  /-- No component is a root. -/
  | noRoots
  /-- Forks are nested too deeply. -/
  | forkLimit (claim : String) (limit : Nat)
  /-- A declaration cannot be used. -/
  | invalidDeclaration (name reason : String)
  /-- A text is not a type expression. -/
  | invalidType (input reason : String)
  /-- A manifest cannot be used. -/
  | invalidManifest (file reason : String)
  /-- The settings or the arguments cannot be used. -/
  | settingsFault (text : String)
  /-- A file cannot be read or written. -/
  | fileFault (text : String)
  /-- A settings text is not well formed. -/
  | syntaxFault (text : String)
deriving Inhabited

namespace Error

/-- The names of a chain, outermost first. -/
def renderChain (chain : List String) : String := " → ".intercalate chain

/-- The wording of an error. -/
def message : Error → String
  | .unresolved claim requester hints chain _ =>
    s!"Required dependency was not found and can't be auto created: {claim} " ++
      s!"(requested by {requester})" ++
    String.join (hints.map ("\n  Hint: " ++ ·)) ++
    if chain.isEmpty then "" else "\n  Resolution chain: " ++ renderChain chain
  | .ambiguous claim requester candidates =>
    s!"More than one component matches dependency claim {claim} (requested by {requester}):\n" ++
    "\n".intercalate (candidates.map ("  " ++ ·))
  | .circular claim chain =>
    "Circular dependency detected: " ++ renderChain chain ++ s!" (through claim {claim})"
  | .restartRequired claim requester extension =>
    s!"Dependency {claim} of {requester} requires a new processing round " ++
      s!"(extension '{extension}')"
  | .roundLimit claim extension rounds =>
    s!"Component was expected to be generated by extension '{extension}' but was not after " ++
      s!"{rounds} round(s): {claim}"
  | .noRoots => "No root components: expected at least one component marked as root"
  | .forkLimit claim limit =>
    s!"Template ambiguity nested deeper than {limit} fork level(s) while resolving {claim}"
  | .invalidDeclaration name reason => s!"Invalid declaration '{name}': {reason}"
  | .invalidType input reason => s!"Invalid type expression '{input}': {reason}"
  | .invalidManifest file reason => s!"Invalid catalog file {file}: {reason}"
  | .settingsFault text => "Configuration error: " ++ text
  | .fileFault text => "IO error: " ++ text
  | .syntaxFault text => "TOML parsing error: " ++ text

/-- Whether a fork may go on with another branch after this error. -/
def isUnresolved : Error → Bool
  | .unresolved .. => true
  | _ => false

/-- The failures of sibling branches. -/
def suppressed : Error → List Error
  | .unresolved _ _ _ _ others => others
  | _ => []

/-- Attaches the failures of sibling branches; errors other than an unresolved claim stay. -/
def withSuppressed (e : Error) (others : List Error) : Error :=
  match e with
  | .unresolved claim requester hints chain before =>
    .unresolved claim requester hints chain (before ++ others)
  | e => e

mutual

/-- The error as it is reported: file and syntax faults count as faults of the settings, with
their full wording. -/
def reported : Error → Error
  | .unresolved claim requester hints chain others =>
    .unresolved claim requester hints chain (reportedAll others)
  | .fileFault text => .settingsFault ("IO error: " ++ text)
  | .syntaxFault text => .settingsFault ("TOML parsing error: " ++ text)
  | e => e

/-- `reported` on a list of errors. -/
def reportedAll : List Error → List Error
  | [] => []
  | e :: es => reported e :: reportedAll es

end

end Error

/-- An error with what helps the reader. -/
structure Advice where
  /-- What went wrong. -/
  error : Error
  /-- What else is known about it. -/
  details : Option String := none
  /-- What to do next. -/
  suggestion : Option String := none

/-- The error with the suggestion and the details that fit its cause. -/
def Error.advise (e : Error) : Advice :=
  match e with
  | .unresolved _ _ _ _ others =>
    { error := e.reported
      suggestion := some <|
        "Declare a component providing this type, plug in the module that does, " ++
        "or mark the claim nullable"
      details :=
        if others.isEmpty then none
        else some (s!"{others.length} other template candidate(s) also failed:\n" ++
          "\n".intercalate (others.map message)) }
  | .ambiguous .. =>
    { error := e.reported
      suggestion := some <|
        "Add tags to the claim and the candidates, or mark all but one candidate " ++
        "as default" }
  | .circular .. =>
    { error := e.reported
      details := some <|
        "Cycles can only be broken when the claimed type is an interface or an open " ++
        "class"
      suggestion := some <|
        "Claim an interface instead of the concrete type, or use a promise-of " ++
        "claim on an interface" }
  | .roundLimit .. =>
    { error := e.reported
      suggestion := some <|
        "Check that the extension's generated declaration becomes visible in the " ++
        "next round, or raise `max_rounds`" }
  | .noRoots =>
    { error := e.reported
      suggestion := some "Mark at least one component with `root = true` in the catalog" }
  | .forkLimit .. =>
    { error := e.reported
      suggestion := some <|
        "Reduce template ambiguity or raise `max_fork_depth` in the resolver " ++
        "configuration" }
  | .invalidType .. =>
    { error := e.reported
      suggestion := some "Type expressions look like `Name` or `Name<Arg, Other<T>>`" }
  | .syntaxFault _ | .invalidManifest .. =>
    { error := e.reported
      suggestion := some "Check the catalog file syntax against the documented format" }
  | .restartRequired .. | .invalidDeclaration .. | .settingsFault _ | .fileFault _ =>
    { error := e.reported }

namespace Advice

/-- The advice as one text. -/
def render (a : Advice) : String :=
  a.error.message ++
  (match a.details with | some d => "\nDetails: " ++ d | none => "") ++
  match a.suggestion with | some s => "\nSuggestion: " ++ s | none => ""

end Advice

/-- What goes wrong in a command, before it is put into words for the reader. -/
inductive Failure where
  /-- An error of the library. -/
  | error (e : Error)
  /-- An error that already carries its advice. -/
  | advised (a : Advice)
  /-- A fault with another cause. -/
  | other (text : String)
  /-- A text that cannot be read, and the reason. -/
  | malformed (reason : String)
  /-- A fault with the context in which it arose. -/
  | within (context : String) (inner : Failure)

namespace Failure

/-- The contexts from the outermost on, and the cause. -/
def contexts : Failure → List String
  | .error e => [e.message]
  | .advised a => [a.render]
  | .other text | .malformed text => [text]
  | .within context inner => context :: inner.contexts

/-- The whole chain on one line. -/
def render (f : Failure) : String := ": ".intercalate f.contexts

/-- The advice for the innermost cause. Contexts around an error of the library are dropped, and
any other cause counts as a fault of the settings with the whole chain as its wording. -/
def advise (f : Failure) : Advice :=
  match cause f with
  | .error e => e.advise
  | .advised a => { a with error := a.error.reported }
  | _ => { error := .settingsFault f.render }
where
  /-- The failure inside all contexts. -/
  cause : Failure → Failure
    | .within _ inner => cause inner
    | f => f

end Failure

end Wiring
