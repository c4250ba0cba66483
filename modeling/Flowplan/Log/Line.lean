import Flowplan.Log.Entry
import Flowplan.Text.Blank
import Flowplan.Text.Capital
import Flowplan.Text.Quoted

/-!
# Log lines

An entry is written as one line of `key=value` pairs: its level, its message unless that is
empty, then its fields in the order of their names. A value is written bare if it consists of
plain characters only, and quoted otherwise. A field whose name means something else in a
line is written under another name.
-/

namespace Flowplan.Log

/-- The name of a level in a line. -/
def Level.lineName : Level → String
  | .trace => "trace"
  | .debug => "debug"
  | .info => "info"
  | .warn => "warning"
  | .error => "error"
  | .fatal => "fatal"

/-- The level meant by a text, in any case and with blanks around it; `info` if none is. -/
def Level.parse (text : String) : Level :=
  match String.ofList ((Text.trim text.toList).map Text.capital) with
  | "TRACE" => .trace
  | "DEBUG" => .debug
  | "WARN" => .warn
  | "WARNING" => .warn
  | "ERROR" => .error
  | "FATAL" => .fatal
  | _ => .info

/-- Characters that need no quotes. -/
def isPlain (c : Char) : Bool :=
  c.isAlphanum || ['-', '.', '_', '/', '@', '^', '+'].contains c

/-- A value as it stands in a line. -/
def lineValue (text : String) : String :=
  if text.toList.all isPlain then text else Text.quote text

/-- Field names with a meaning of their own. -/
def reservedNames : List String := ["time", "msg", "level", "logrus_error"]

/-- The name under which a field of a reserved name is written. -/
def displaced (name : String) : String :=
  "fields." ++ name

/-- Renames the fields of reserved names. A renamed field takes the place of a field that
already has its new name. -/
def displaceFields (fields : List (String × String)) : List (String × String) :=
  let taken := (reservedNames.filter fun name => (fields.lookup name).isSome).map displaced
  (fields.filter fun field => !taken.contains field.1).map fun (name, value) =>
    (if reservedNames.contains name then displaced name else name, value)

/-- The fields as they stand in a line, in the order of their names. -/
def lineFields (entry : Entry) : List (String × String) :=
  (displaceFields entry.fields).mergeSort fun left right => decide (left.1 ≤ right.1)

/-- The line of an entry. -/
def Entry.line (entry : Entry) : String :=
  let message := if entry.message = "" then [] else [("msg", lineValue entry.message)]
  let fields := (lineFields entry).map fun (name, value) => (name, lineValue value)
  " ".intercalate (([("level", entry.level.lineName)] ++ message ++ fields).map
    fun (name, value) => name ++ "=" ++ value)

/-- The lines that a logger of the given level writes. The name of a field stands bare in any
case, so it may break the line of its entry. -/
def lines (threshold : Level) (entries : List Entry) : List String :=
  (entries.filter (Entry.keptAt threshold)).flatMap fun entry => entry.line.splitOn "\n"

end Flowplan.Log
