/-!
# Targets and kinds of properties

Targets and kinds are open enumerations: any whole number may turn up as a code, and
only some of them are declared. An undeclared code has a name too, made of its number,
so that it can be reported.
-/

namespace Flowplan

/-- The elements a property can annotate. Vertices and edges are the declared targets. -/
structure Target where
  code : Int
  deriving DecidableEq, Repr

namespace Target

def vertex : Target := ⟨0⟩

def edge : Target := ⟨1⟩

def name (target : Target) : String :=
  if target = vertex then "vertex"
  else if target = edge then "edge"
  else "Target(" ++ toString target.code ++ ")"

end Target

/-- What a property is about. A bag keeps at most one value per kind. -/
structure Kind where
  code : Int
  deriving DecidableEq, Repr

namespace Kind

/-- How data moves across an edge. -/
def communicationPattern : Kind := ⟨1⟩

/-- How data is written on the sending side of an edge. -/
def encoder : Kind := ⟨2⟩

/-- How data is read on the receiving side of an edge. -/
def decoder : Kind := ⟨3⟩

/-- How records are distributed among the receivers of an edge. -/
def partitioner : Kind := ⟨4⟩

/-- How many instances of a vertex run side by side. -/
def parallelism : Kind := ⟨5⟩

/-- The declared kinds, with the name and the target of each. -/
def declarations : List (Kind × String × Target) :=
  [(communicationPattern, "CommunicationPattern", .edge),
   (encoder, "Encoder", .edge),
   (decoder, "Decoder", .edge),
   (partitioner, "Partitioner", .edge),
   (parallelism, "Parallelism", .vertex)]

def name (kind : Kind) : String :=
  match declarations.lookup kind with
  | some (name, _) => name
  | none => "Kind(" ++ toString kind.code ++ ")"

/-- The elements a kind annotates. An undeclared kind counts as one of vertices. -/
def target (kind : Kind) : Target :=
  match declarations.lookup kind with
  | some (_, target) => target
  | none => .vertex

def declared (kind : Kind) : Bool :=
  (declarations.lookup kind).isSome

/-- The kinds which a stage edge takes over from the edges bundled on it. -/
def carried : List Kind := [communicationPattern, encoder, decoder, partitioner]

end Kind

end Flowplan
