import Flowplan.Graph.Order

/-!
# Building graphs

A builder takes vertices and edges one at a time and refuses what would break the graph: an
id used twice, an edge from a vertex to itself, an edge whose end is not there yet. A refused
call leaves the builder as it was. Building fails exactly when sorting does.
-/

namespace Flowplan

/-- The vertices and edges accepted so far, in order. -/
structure Builder (V E : Type) where
  vertices : List V
  edges : List E
  deriving DecidableEq, Repr

namespace Builder

variable {V E : Type}

def empty : Builder V E := ⟨[], []⟩

variable [Node V] [Arc E]

def ids (builder : Builder V E) : List String :=
  builder.vertices.map Node.id

def links (builder : Builder V E) : List Link :=
  builder.edges.map Arc.link

def addVertex (builder : Builder V E) (vertex : V) : Except Fault (Builder V E) :=
  if Node.id vertex ∈ builder.ids then
    .error (.structural (.duplicateVertex (Node.id vertex)))
  else .ok { builder with vertices := builder.vertices ++ [vertex] }

/-- Why an edge cannot be added, if it cannot. -/
def linkDefect (builder : Builder V E) (link : Link) : Option Defect :=
  if link.id ∈ builder.links.map Link.id then some (.duplicateEdge link.id)
  else if link.source = link.destination then some (.selfLoop link.id link.source)
  else if link.source ∉ builder.ids then some (.unknownSource link.id link.source)
  else if link.destination ∉ builder.ids then
    some (.unknownDestination link.id link.destination)
  else none

def connect (builder : Builder V E) (edge : E) : Except Fault (Builder V E) :=
  match builder.linkDefect (Arc.link edge) with
  | some defect => .error (.structural defect)
  | none => .ok { builder with edges := builder.edges ++ [edge] }

/-- The graph of the accepted vertices and edges, before it is sorted. -/
def unsorted (builder : Builder V E) : Dag V E :=
  { vertices := builder.vertices
    edges := builder.edges
    ids := builder.ids
    links := builder.links
    order := [] }

def build (builder : Builder V E) : Except Fault (Dag V E) := do
  let order ← builder.unsorted.sort
  return { builder.unsorted with order := order }

/-- Adds vertices one after another and stops at the first one refused. -/
def addVertices (builder : Builder V E) : List V → Except Fault (Builder V E)
  | [] => .ok builder
  | vertex :: rest => do (← builder.addVertex vertex).addVertices rest

/-- Adds edges one after another and stops at the first one refused. -/
def connectAll (builder : Builder V E) : List E → Except Fault (Builder V E)
  | [] => .ok builder
  | edge :: rest => do (← builder.connect edge).connectAll rest

end Builder

end Flowplan
