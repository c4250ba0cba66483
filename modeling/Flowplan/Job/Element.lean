import Flowplan.Graph.Basic
import Flowplan.Property.Bag

/-!
# Elements of job graphs

A job is described by vertices, which are steps of computation, and edges, along which data
moves. Both carry a bag of properties. The transform of a vertex is known by name only, and
may be missing.
-/

namespace Flowplan

/-- A step of computation. -/
structure Vertex where
  id : String
  transform : Option String
  bag : Bag
  deriving DecidableEq, Repr

namespace Vertex

/-- A vertex without properties. -/
def bare (id : String) (transform : Option String) : Vertex := ⟨id, transform, .empty .vertex⟩

def label (vertex : Vertex) : String :=
  "vertex " ++ vertex.id ++ " (" ++ vertex.transform.getD "<nil>" ++ ")"

def set (vertex : Vertex) (value : Option Value) : Except Fault Vertex := do
  return { vertex with bag := ← vertex.bag.set value }

instance : Node Vertex := ⟨Vertex.id⟩

end Vertex

/-- A movement of data between two vertices. -/
structure Edge where
  id : String
  source : String
  destination : String
  bag : Bag
  deriving DecidableEq, Repr

namespace Edge

/-- An edge without properties. -/
def bare (id source destination : String) : Edge := ⟨id, source, destination, .empty .edge⟩

def label (edge : Edge) : String :=
  "edge " ++ edge.id ++ " (" ++ edge.source ++ " -> " ++ edge.destination ++ ")"

def set (edge : Edge) (value : Option Value) : Except Fault Edge := do
  return { edge with bag := ← edge.bag.set value }

def link (edge : Edge) : Link := ⟨edge.id, edge.source, edge.destination⟩

instance : Arc Edge := ⟨Edge.link⟩

/-- The typed communication pattern of an edge. -/
def pattern? (edge : Edge) : Option Pattern :=
  edge.bag.pattern?

def isShuffle (edge : Edge) : Bool :=
  edge.pattern? = some .shuffle

end Edge

/-- Anything in a job graph that carries properties. -/
inductive Element where
  | vertex (vertex : Vertex)
  | edge (edge : Edge)
  deriving DecidableEq, Repr

namespace Element

def id : Element → String
  | .vertex v => v.id
  | .edge e => e.id

def bag : Element → Bag
  | .vertex v => v.bag
  | .edge e => e.bag

def label : Element → String
  | .vertex v => v.label
  | .edge e => e.label

/-- Whether an element is an edge over which data is shuffled. -/
def isShuffle : Element → Bool
  | .vertex _ => false
  | .edge e => e.isShuffle

end Element

end Flowplan
