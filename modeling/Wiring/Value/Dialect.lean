import Wiring.Value.Basic
/-!
# Dialects of data formats

Records and words have a second written form in every format: a record may be the list of its
values, and a word the only name of a record. A `Dialect` says what more is allowed there.
-/

namespace Wiring

/-- What a data format allows in the second written forms of records and words. -/
structure Dialect where
  /-- Whether a list that stands for a record may go on after the last field. -/
  surplus : Bool
  /-- Whether a value may follow a word that stands as the only name of a record. -/
  isNothing : Value → Bool

namespace Dialect

/-- In JSON nothing is null, and a list has no more values than the record has fields. -/
def json : Dialect where
  surplus := false
  isNothing
    | .null => true
    | _ => false

/-- In TOML nothing is a list or table without entries, and what follows the fields is passed
over. -/
def toml : Dialect where
  surplus := true
  isNothing
    | .list [] => true
    | .record [] => true
    | _ => false

/-- Inside a record that names its own kind, nothing is null or a record without fields. -/
def tagged : Dialect where
  surplus := false
  isNothing
    | .null => true
    | .record [] => true
    | _ => false

end Dialect

end Wiring
