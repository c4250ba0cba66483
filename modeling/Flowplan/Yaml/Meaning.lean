import Flowplan.Text.Base64
import Flowplan.Text.Octets
import Flowplan.Yaml.Number
import Flowplan.Yaml.Timestamp

/-!
# What YAML scalars mean

A scalar in quotes is text. A plain scalar is nothing, a truth value, a number or a timestamp if
it reads as one, and text otherwise. A scalar with a tag means what the tag states.
-/

namespace Flowplan.Yaml

/-- A number which is not whole. Of a finite one only the whole part is kept. -/
inductive Real where
  | notANumber
  | infinite (negative : Bool)
  | finite (whole : Int)
  deriving DecidableEq, Repr

/-- What a scalar means. -/
inductive Meaning where
  | null
  | truth (value : Bool)
  | integer (value : Int)
  | real (value : Real)
  | timestamp
  | text (value : String)
  deriving DecidableEq, Repr

/-- What the tags of the language itself start with. -/
def standardSpace : String := "tag:yaml.org,2002:"

/-- The tag of the language itself for a kind of node. -/
def standardTag (kind : String) : String := standardSpace ++ kind

/-- How a tag is told: those of the language itself are told in short. -/
def shortTag (tag : String) : String :=
  if tag.startsWith standardSpace then
    "!!" ++ String.ofList (tag.toList.drop standardSpace.length)
  else tag

namespace Meaning

/-- The tag of a kind of scalar. -/
def tag : Meaning → String
  | .null => standardTag "null"
  | .truth _ => standardTag "bool"
  | .integer _ => standardTag "int"
  | .real _ => standardTag "float"
  | .timestamp => standardTag "timestamp"
  | .text _ => standardTag "str"

/-- Words with a meaning of their own. -/
def words : List (String × Meaning) :=
  (["", "~", "null", "Null", "NULL"].map (·, .null)) ++
  (["y", "Y", "yes", "Yes", "YES", "true", "True", "TRUE", "on", "On", "ON"].map
    (·, .truth true)) ++
  (["n", "N", "no", "No", "NO", "false", "False", "FALSE", "off", "Off", "OFF"].map
    (·, .truth false)) ++
  ([".nan", ".NaN", ".NAN"].map (·, .real .notANumber)) ++
  ([".inf", ".Inf", ".INF", "+.inf", "+.Inf", "+.INF"].map (·, .real (.infinite false))) ++
  (["-.inf", "-.Inf", "-.INF"].map (·, .real (.infinite true)))

/-- The meaning of a plain scalar that starts with a digit or a sign, if it is no text.
Underscores do not count, except in a timestamp. -/
def ofNumeral? (text : List Char) : Option Meaning :=
  if isTimestamp text then some .timestamp
  else
    let bare := text.filter (· ≠ '_')
    let (negative, magnitude) := splitSign bare
    let decimal : Option Int := (decimal? magnitude).map fun whole =>
      if negative then -(whole : Int) else (whole : Int)
    match integer? bare, decimal, innerSigned? bare with
    | some value, _, _ => some (.integer value)
    | none, some whole, _ => some (.real (.finite whole))
    | none, none, some value => some (.integer value)
    | none, none, none => none

/-- The meaning of a plain scalar. -/
def ofPlain (text : String) : Meaning :=
  match words.lookup text with
  | some meaning => meaning
  | none =>
      match text.toList with
      | [] => .null
      | c :: rest =>
          if c.isDigit || c = '+' || c = '-' then (ofNumeral? (c :: rest)).getD (.text text)
          else if c = '.' && underscoresBetweenDigits false (c :: rest) then
            match decimal? ((c :: rest).filter (· ≠ '_')) with
            | some whole => .real (.finite whole)
            | none => .text text
          else .text text

/-- The double nearest to a whole number, if the number fits 64 bits with a sign. -/
def ofWhole? (value : Int) : Option Meaning :=
  if value < signedLimit then
    (Double.ofDecimal? value.natAbs 0).map fun double =>
      .real (.finite (if value < 0 then -(double.whole : Int) else double.whole))
  else none

/-- The meaning of a scalar with the tag of a kind that plain scalars have. What is written must
be of that kind; a whole number may stand for one which is not. -/
def ofTagged? (tag text : String) : Option Meaning :=
  let meaning := ofPlain text
  if meaning.tag = tag then some meaning
  else
    match meaning with
    | .integer value => if tag = standardTag "float" then ofWhole? value else none
    | _ => none

/-- The tags of the kinds that plain scalars have, texts aside. -/
def plainTags : List String :=
  ["null", "bool", "int", "float", "timestamp"].map standardTag

/-- The meaning of a scalar, unless it is not what its tag states. Any scalar is a text if its
tag states no other kind; one of bytes is the text of these bytes. -/
def ofScalar? (tag : Option String) (text : String) (plain : Bool) : Option Meaning :=
  match tag with
  | none => some (if plain then ofPlain text else .text text)
  | some tag =>
      if plainTags.contains tag then ofTagged? tag text
      else if tag = standardTag "binary" then
        (Text.Base64.decode? text).map fun octets => .text (String.ofList (Text.ofOctets octets))
      else some (.text text)

/-- The whole number in 64 bits that a number stands for. Numbers are cut to their whole part.
What lies below the range, and the first number above it, wraps to the least number. -/
def whole? : Meaning → Option Int
  | .integer value => if value < signedLimit then some value else none
  | .real (.infinite true) => some (-signedLimit)
  | .real (.finite whole) =>
      if signedLimit < whole then none
      else if whole = signedLimit || whole < -signedLimit then some (-signedLimit)
      else some whole
  | _ => none

end Meaning

end Flowplan.Yaml
