import Flowplan.Fault

/-!
# Directed acyclic graphs

A graph owns its vertices and edges; an edge names its ends by vertex id only. Both can be
revised in place after the graph has been built (`reviseVertex`, `reviseEdge`). The index of
the graph is not: it keeps the ids and the ends as they were when the graph was built, and
so does the stored topological order. Every query below says which of the two it reads.

* A position is looked up in the index. An id which is not in it reads as position 0.
* Incoming and outgoing edges are found by the ends of build time, and the edges found are
  shown as they stand now.
* Parents and children are the vertices at the positions of the present ends of those edges.

For a graph nobody has revised, the index agrees with the elements and all of this is the
usual meaning.
-/

namespace Flowplan

/-- The id and the ends of an edge. -/
structure Link where
  id : String
  source : String
  destination : String
  deriving DecidableEq, Repr

/-- Vertices of a graph, identified by an id. -/
class Node (V : Type) where
  id : V → String

/-- Edges of a graph, identified by an id and connecting two vertices. -/
class Arc (E : Type) where
  link : E → Link

/-- A graph over vertices `V` and edges `E`, both in the order of their insertion. -/
structure Dag (V E : Type) where
  vertices : List V
  edges : List E
  /-- The ids of the vertices when the graph was built. -/
  ids : List String
  /-- The ids and the ends of the edges when the graph was built. -/
  links : List Link
  /-- The positions of the vertices in topological order. -/
  order : List Nat
  deriving DecidableEq, Repr

namespace Dag

variable {V E : Type}

def size (graph : Dag V E) : Nat :=
  graph.vertices.length

/-- Changes the vertex at a position, and nothing else. -/
def reviseVertex (graph : Dag V E) (position : Nat) (revise : V → V) : Dag V E :=
  { graph with vertices := graph.vertices.modify position revise }

/-- Changes the edge at a position, and nothing else. -/
def reviseEdge (graph : Dag V E) (position : Nat) (revise : E → E) : Dag V E :=
  { graph with edges := graph.edges.modify position revise }

/-- The indexed position of a vertex id. -/
def position? (graph : Dag V E) (id : String) : Option Nat :=
  graph.ids.idxOf? id

/-- The indexed position of a vertex id, where an unknown id reads as position 0. -/
def position (graph : Dag V E) (id : String) : Nat :=
  (graph.position? id).getD 0

/-- The vertex indexed under an id, as it stands. -/
def vertex? (graph : Dag V E) (id : String) : Option V :=
  (graph.position? id).bind fun position => graph.vertices[position]?

/-- The indexed position of an edge id. -/
def edgePosition? (graph : Dag V E) (id : String) : Option Nat :=
  graph.links.findIdx? fun link => link.id = id

/-- The edge indexed under an id, as it stands. -/
def edge? (graph : Dag V E) (id : String) : Option E :=
  (graph.edgePosition? id).bind fun position => graph.edges[position]?

/-- The edges whose indexed link satisfies `wanted`, in insertion order, as they stand. -/
def edgesWhere (graph : Dag V E) (wanted : Link → Bool) : List E :=
  ((graph.edges.zip graph.links).filter fun pair => wanted pair.2).map Prod.fst

/-- The edges which ended at the vertex of this id when the graph was built. -/
def incoming (graph : Dag V E) (id : String) : List E :=
  graph.edgesWhere fun link => link.destination = id

/-- The edges which started at the vertex of this id when the graph was built. -/
def outgoing (graph : Dag V E) (id : String) : List E :=
  graph.edgesWhere fun link => link.source = id

/-- The vertices in topological order. -/
def topological (graph : Dag V E) : List V :=
  graph.order.filterMap fun position => graph.vertices[position]?

/-- The vertices at the sources of the incoming edges. -/
def parents [Arc E] (graph : Dag V E) (id : String) : List V :=
  (graph.incoming id).filterMap fun edge => graph.vertices[graph.position (Arc.link edge).source]?

/-- The vertices at the destinations of the outgoing edges. -/
def children [Arc E] (graph : Dag V E) (id : String) : List V :=
  (graph.outgoing id).filterMap fun edge =>
    graph.vertices[graph.position (Arc.link edge).destination]?

/-- The vertices without incoming edges, in insertion order. -/
def roots [Node V] (graph : Dag V E) : List V :=
  graph.vertices.filter fun vertex => (graph.incoming (Node.id vertex)).isEmpty

end Dag

end Flowplan
