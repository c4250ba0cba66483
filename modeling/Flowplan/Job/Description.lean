import Flowplan.Job.Graph

/-!
# Described jobs

A description lists the vertices and edges of a job with the values they are to carry. The
graph is put together in that order: the values of an element are set one by one, then the
element is added, and the first fault ends it.
-/

namespace Flowplan

/-- A vertex to be added, with its values. -/
structure VertexDescription where
  id : String
  transform : Option String
  values : List (Option Value)

/-- An edge to be added, with its values. -/
structure EdgeDescription where
  link : Link
  values : List (Option Value)

/-- A job to be put together. -/
structure JobDescription where
  vertices : List VertexDescription
  edges : List EdgeDescription

def VertexDescription.vertex (described : VertexDescription) : Except Fault Vertex := do
  let bag ← (Bag.empty .vertex).setAll described.values
  return { Vertex.bare described.id described.transform with bag := bag }

def EdgeDescription.edge (described : EdgeDescription) : Except Fault Edge := do
  let bag ← (Bag.empty .edge).setAll described.values
  return { Edge.bare described.link.id described.link.source described.link.destination with
    bag := bag }

namespace JobDescription

def addVertices (builder : Builder Vertex Edge) :
    List VertexDescription → Except Fault (Builder Vertex Edge)
  | [] => .ok builder
  | described :: rest => do
      let vertex ← described.vertex
      let extended ← builder.addVertex vertex
      addVertices extended rest

def connectAll (builder : Builder Vertex Edge) :
    List EdgeDescription → Except Fault (Builder Vertex Edge)
  | [] => .ok builder
  | described :: rest => do
      let edge ← described.edge
      let extended ← builder.connect edge
      connectAll extended rest

/-- The job graph, or the first fault. -/
def build (described : JobDescription) : Except Fault JobGraph := do
  let withVertices ← addVertices .empty described.vertices
  let complete ← connectAll withVertices described.edges
  complete.build

end JobDescription

end Flowplan
