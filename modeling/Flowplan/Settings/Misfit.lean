import Flowplan.Fault
import Flowplan.Text.Clipped
import Flowplan.Yaml.Meaning

/-!
# What is wrong with the text of settings

A text that is well formed may still not fit: a name may be unknown or stand twice, and a node
may not be what is wanted in its place.
-/

namespace Flowplan

/-- What a value has to be. -/
inductive Wanted where
  | truth
  | whole
  | text
  | texts
  | settings
  deriving DecidableEq, Repr

/-- How what a value has to be is named. -/
def Wanted.name : Wanted → String
  | .truth => "bool"
  | .whole => "int"
  | .text => "string"
  | .texts => "[]string"
  | .settings => "sifc.Config"

/-- One thing wrong with a text. Lines count from zero. -/
inductive Misfit where
  | unknownName (line : Nat) (name : String)
  | repeatedName (line : Nat) (name : String)
  /-- A node with its tag and its text, where something else is wanted. The text of a collection
  is empty. -/
  | unwanted (line : Nat) (tag text : String) (wanted : Wanted)
  deriving DecidableEq, Repr

namespace Misfit

/-- A sequence where something else is wanted. -/
def sequence (line : Nat) (wanted : Wanted) : Misfit :=
  unwanted line (Yaml.standardTag "seq") "" wanted

/-- A mapping where something else is wanted. -/
def mapping (line : Nat) (wanted : Wanted) : Misfit :=
  unwanted line (Yaml.standardTag "map") "" wanted

/-- How a line is told, counted from one. -/
def atLine (line : Nat) : String :=
  "line " ++ toString (line + 1) ++ ": "

/-- How a node is told. The text is quoted and clipped, unless the tag is that of a
collection. -/
def shown (tag text : String) : String :=
  if ["seq", "map"].any fun kind => tag = Yaml.standardTag kind then Yaml.shortTag tag ++ text
  else Yaml.shortTag tag ++ " `" ++ Text.clip 10 7 text ++ "`"

def message : Misfit → String
  | unknownName line name =>
      atLine line ++ "field " ++ name ++ " not found in type " ++ Wanted.settings.name
  | repeatedName line name =>
      atLine line ++ "field " ++ name ++ " already set in type " ++ Wanted.settings.name
  | unwanted line tag text wanted =>
      atLine line ++ "cannot unmarshal " ++ shown tag text ++ " into " ++ wanted.name

end Misfit

/-- Why no settings come from a text. -/
inductive SettingsError where
  /-- The text is not well formed. -/
  | malformed
  /-- The text does not fit settings. -/
  | misfits (all : List Misfit)
  /-- The settings cannot be used. -/
  | unusable (fault : Fault)
  deriving Repr

def SettingsError.message : SettingsError → String
  | .malformed => "unable to parse compiler configuration: yaml: malformed text"
  | .misfits all =>
      all.foldl (fun told misfit => told ++ "\n  " ++ misfit.message)
        "unable to parse compiler configuration: yaml: unmarshal errors:"
  | .unusable fault => fault.message

end Flowplan
