/-!
# Files

`Files` says what is found under each path. Reading gives the text of a file or the reason why
there is none.
-/

namespace Wiring

/-- What is found under a path. -/
inductive FileContent where
  /-- A file with a text. -/
  | text (s : String)
  /-- Nothing, for this reason. -/
  | missing (reason : String)
  /-- Something that cannot be read as a text, for this reason. -/
  | unreadable (reason : String)
deriving DecidableEq, Repr

/-- What is found under each path. -/
abbrev Files := String → FileContent

/-- The reason why nothing is found under a name that is not taken. -/
def missingReason : String := "No such file or directory (os error 2)"

/-- The reason why nothing is found under a path that goes on below a file. -/
def notDirectoryReason : String := "Not a directory (os error 20)"

/-- The reason why a directory is neither read nor written. -/
def directoryReason : String := "Is a directory (os error 21)"

/-- The text of a file, or the reason why there is none. -/
def FileContent.read : FileContent → Except String String
  | .text s => .ok s
  | .missing reason | .unreadable reason => .error reason

end Wiring
