import Flowplan.Graph.Builder
import Flowplan.Graph.Validation
import Flowplan.Job.Element

/-!
# Job graphs

A job graph is a directed acyclic graph of vertices and edges with properties. Its elements
are listed with the vertices first, in topological order, and then the edges, in insertion
order. A `Place` says where in the graph an element is, so that its bag can be replaced; the
structure of the graph never changes.
-/

namespace Flowplan

abbrev JobGraph := Dag Vertex Edge

/-- The position of an element in a job graph. -/
inductive Place where
  | vertex (position : Nat)
  | edge (position : Nat)
  deriving DecidableEq, Repr

namespace JobGraph

/-- The places of all elements, in the order in which elements are listed. -/
def places (graph : JobGraph) : List Place :=
  graph.order.map .vertex ++ (List.range graph.edges.length).map .edge

def element? (graph : JobGraph) : Place → Option Element
  | .vertex position => graph.vertices[position]?.map .vertex
  | .edge position => graph.edges[position]?.map .edge

/-- The vertices in topological order, then the edges in insertion order. -/
def elements (graph : JobGraph) : List Element :=
  graph.topological.map .vertex ++ graph.edges.map .edge

/-- Replaces the bag of the element at a place. -/
def setBag (graph : JobGraph) (place : Place) (bag : Bag) : JobGraph :=
  match place with
  | .vertex position => graph.reviseVertex position fun vertex => { vertex with bag := bag }
  | .edge position => graph.reviseEdge position fun edge => { edge with bag := bag }

/-- Stores a value at a place, or refuses it and leaves the graph alone. -/
def setAt (graph : JobGraph) (place : Place) (value : Option Value) : Except Fault JobGraph :=
  match graph.element? place with
  | none => .ok graph
  | some element => (element.bag.set value).map (graph.setBag place)

/-- Stores a value on every element among the places that `selects`, one after another. The
first refusal stops; what was stored before stays. -/
def setWhere (graph : JobGraph) (selects : Element → Bool) (value : Option Value) :
    List Place → Option Fault × JobGraph
  | [] => (none, graph)
  | place :: rest =>
      if (graph.element? place).any selects then
        match graph.setAt place value with
        | .error fault => (some fault, graph)
        | .ok changed => setWhere changed selects value rest
      else setWhere graph selects value rest

/-- Stores a value on every selected element, in the order of elements. -/
def setAll (graph : JobGraph) (selects : Element → Bool) (value : Option Value) :
    Option Fault × JobGraph :=
  setWhere graph selects value graph.places

/-- The places of the edges which ended at the vertex of this id when the graph was built. -/
def incomingPlaces (graph : JobGraph) (id : String) : List Place :=
  (graph.links.zipIdx.filter fun pair => pair.1.destination = id).map fun pair => .edge pair.2

/-- The place of the vertex indexed under an id. -/
def vertexPlace? (graph : JobGraph) (id : String) : Option Place :=
  (graph.position? id).map .vertex

/-- The place of the edge indexed under an id. -/
def edgePlace? (graph : JobGraph) (id : String) : Option Place :=
  (graph.edgePosition? id).map .edge

end JobGraph

end Flowplan
