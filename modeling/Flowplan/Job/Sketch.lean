import Flowplan.Job.Graph

/-!
# Sketching jobs

A sketch puts a job graph together call by call and keeps the first fault until the end;
calls after it do nothing. Edges get their ids from their ends: the edge from `a` to `b` is
`a->b`, and the n-th edge asked for under that id is `a->b#n`.
-/

namespace Flowplan

/-- A job graph being put together. -/
structure Sketch where
  builder : Builder Vertex Edge
  /-- How often an edge was asked for under an id. -/
  asked : List (String × Nat)
  fault : Option Fault

namespace Sketch

def empty : Sketch := ⟨.empty, [], none⟩

/-- The id of the first edge between two vertices. -/
def edgeId (source destination : String) : String :=
  source ++ "->" ++ destination

/-- How often edges were asked for under an id. -/
def timesAsked (sketch : Sketch) (id : String) : Nat :=
  (sketch.asked.lookup id).getD 0

/-- The id of an edge asked for the given number of times. -/
def numberedId (id : String) (times : Nat) : String :=
  if times > 1 then id ++ "#" ++ toString times else id

/-- Goes on with a changed builder, or keeps the fault of the change. -/
def settle (sketch : Sketch) : Except Fault (Builder Vertex Edge) → Sketch
  | .ok builder => { sketch with builder := builder }
  | .error fault => { sketch with fault := some fault }

/-- Adds a vertex which runs a transform named like itself. -/
def vertex (sketch : Sketch) (id : String) (values : List (Option Value)) : Sketch :=
  if sketch.fault.isSome then sketch
  else sketch.settle do
    let bag ← (Bag.empty .vertex).setAll values
    sketch.builder.addVertex { Vertex.bare id (some id) with bag := bag }

/-- Adds an edge between two vertices which are there. -/
def edge (sketch : Sketch) (source destination : String) (values : List (Option Value)) :
    Sketch :=
  if sketch.fault.isSome then sketch
  else if source ∉ sketch.builder.ids then
    { sketch with fault := some (.unknownVertex source) }
  else if destination ∉ sketch.builder.ids then
    { sketch with fault := some (.unknownVertex destination) }
  else
    let id := edgeId source destination
    let times := sketch.timesAsked id + 1
    let counted := { sketch with asked := (id, times) :: sketch.asked }
    counted.settle do
      let bag ← (Bag.empty .edge).setAll values
      sketch.builder.connect { Edge.bare (numberedId id times) source destination with bag := bag }

/-- The job graph, or the first fault. -/
def build (sketch : Sketch) : Except Fault JobGraph :=
  match sketch.fault with
  | some fault => .error fault
  | none => sketch.builder.build

/-- The id of the vertex at a position of a chain. -/
def chainId (position : Nat) : String :=
  "V" ++ toString position

/-- Appends one vertex and one edge of each pattern, starting after the given position. -/
def extendChain (sketch : Sketch) (position : Nat) : List Pattern → Sketch
  | [] => sketch
  | pattern :: rest =>
      ((sketch.vertex (chainId (position + 1)) []).edge (chainId position)
        (chainId (position + 1)) [some (.pattern pattern)]).extendChain (position + 1) rest

/-- A chain of vertices whose i-th edge has the i-th pattern. -/
def chain (patterns : List Pattern) : Sketch :=
  (empty.vertex (chainId 0) []).extendChain 0 patterns

end Sketch

end Flowplan
