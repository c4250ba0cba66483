/-!
# Log entries

An entry has a level, a message and named fields. A logger of some level keeps the entries
which are at least as urgent as that level; how an entry is written is decided elsewhere.
-/

namespace Flowplan.Log

/-- How urgent an entry is, from the least to the most. -/
inductive Level where
  | trace
  | debug
  | info
  | warn
  | error
  | fatal
  deriving DecidableEq, Repr

namespace Level

/-- The rank of a level, higher for more urgent ones. -/
def rank : Level → Nat
  | trace => 0
  | debug => 1
  | info => 2
  | warn => 3
  | error => 4
  | fatal => 5

/-- The level of a code, where an unknown code means `info`. -/
def ofCode : Int → Level
  | 0 => trace
  | 1 => debug
  | 3 => warn
  | 4 => error
  | 5 => fatal
  | _ => info

/-- The name of a level by its code, where an unknown code is named like `trace`. -/
def nameOfCode : Int → String
  | 1 => "DEBUG"
  | 2 => "INFO"
  | 3 => "WARN"
  | 4 => "ERROR"
  | 5 => "FATAL"
  | _ => "TRACE"

/-- The code of a level. -/
def code (level : Level) : Int :=
  level.rank

end Level

/-- Something worth logging. Fields hold their values as text. -/
structure Entry where
  level : Level
  message : String
  fields : List (String × String)
  deriving DecidableEq, Repr

/-- Whether a logger of the given level keeps an entry. -/
def Entry.keptAt (threshold : Level) (entry : Entry) : Bool :=
  threshold.rank ≤ entry.level.rank

end Flowplan.Log
