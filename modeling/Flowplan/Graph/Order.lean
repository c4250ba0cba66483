import Flowplan.Graph.Basic

/-!
# Topological order

Every vertex has a counter, at first the number of edges that end at it. The vertices whose
counter has come down to zero are ready; the one inserted first is taken next, and each edge
which starts at it lowers the counter at its end. Taking the earliest ready vertex makes the
order the least one by insertion positions.

Edges are counted by the ends they have now, and followed from the vertices at which they
started when the graph was built. A vertex is taken at most once, so as many turns as there
are vertices are enough; a turn with nothing ready changes nothing.
-/

namespace Flowplan

/-- Inserts a position into an increasing list of positions. -/
def insertPosition (position : Nat) : List Nat → List Nat
  | [] => [position]
  | first :: rest =>
      if position ≤ first then position :: first :: rest
      else first :: insertPosition position rest

/-- How far a topological sort has come. -/
structure Sorting where
  /-- The counter of each vertex. -/
  counters : List Int
  /-- The positions to take, in increasing order. -/
  ready : List Nat
  /-- The positions taken, in the order they were taken. -/
  taken : List Nat
  deriving DecidableEq, Repr

/-- Lowers the counter at a position, which becomes ready when the counter reaches zero. -/
def Sorting.lower (sorting : Sorting) (position : Nat) : Sorting :=
  let counter := sorting.counters.getD position 0 - 1
  { sorting with
    counters := sorting.counters.set position counter
    ready := if counter = 0 then insertPosition position sorting.ready else sorting.ready }

namespace Dag

variable {V E : Type} [Node V] [Arc E]

/-- The position at which an edge ends. -/
def endPosition (graph : Dag V E) (edge : E) : Nat :=
  graph.position (Arc.link edge).destination

/-- The number of edges that end at each vertex. -/
def counters (graph : Dag V E) : List Int :=
  let ends := graph.edges.map graph.endPosition
  (List.range graph.size).map fun position => (ends.count position : Int)

/-- The sort before its first turn. -/
def sortStart (graph : Dag V E) : Sorting :=
  let counters := graph.counters
  { counters := counters
    ready := (List.range graph.size).filter fun position => counters.getD position 0 = 0
    taken := [] }

/-- The edges which start at the vertex at a position. -/
def outgoingAt (graph : Dag V E) (position : Nat) : List E :=
  (graph.vertices[position]?).elim [] fun vertex => graph.outgoing (Node.id vertex)

/-- Takes the first ready vertex, if there is one. -/
def sortTurn (graph : Dag V E) (sorting : Sorting) : Sorting :=
  match sorting.ready with
  | [] => sorting
  | position :: rest =>
      (graph.outgoingAt position).foldl (fun state edge => state.lower (graph.endPosition edge))
        { sorting with ready := rest, taken := sorting.taken ++ [position] }

/-- A number of turns, one after another. -/
def sortTurns (graph : Dag V E) : Nat → Sorting → Sorting
  | 0, sorting => sorting
  | turns + 1, sorting => graph.sortTurns turns (graph.sortTurn sorting)

/-- The sort after its last turn. -/
def sortEnd (graph : Dag V E) : Sorting :=
  graph.sortTurns graph.size graph.sortStart

/-- The ids of the vertices whose counter is still positive, in insertion order. -/
def stuck (graph : Dag V E) (sorting : Sorting) : List String :=
  ((graph.vertices.zip sorting.counters).filter fun pair => 0 < pair.2).map fun pair =>
    Node.id pair.1

/-- The positions of all vertices in topological order, or the vertices which a cycle
keeps from being taken. -/
def sort (graph : Dag V E) : Except Fault (List Nat) :=
  let sorting := graph.sortEnd
  if sorting.taken.length = graph.size then .ok sorting.taken
  else .error (.structural (.cycle (graph.stuck sorting)))

end Dag

end Flowplan
