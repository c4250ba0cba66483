import Flowplan.Graph.Order

/-!
# Validating graphs

Validation looks at a graph as it stands. A vertex has to be indexed at its own position
under its present id, and the present ends of every edge have to be indexed. All violations
are collected, those of vertices first. Only a graph without any is sorted again, and then
the sort decides.
-/

namespace Flowplan

namespace Dag

variable {V E : Type} [Node V] [Arc E]

/-- The vertices which are not indexed at their position. -/
def vertexDefects (graph : Dag V E) : List Defect :=
  (graph.vertices.mapIdx fun position vertex =>
    if graph.position? (Node.id vertex) = some position then []
    else [Defect.unindexedVertex (Node.id vertex)]).flatten

/-- The ends of one edge which are not indexed. -/
def endDefects (graph : Dag V E) (link : Link) : List Defect :=
  (if (graph.position? link.source).isSome then [] else [.unknownSource link.id link.source]) ++
  (if (graph.position? link.destination).isSome then []
    else [.unknownDestination link.id link.destination])

/-- Everything the index and the elements disagree on. -/
def defects (graph : Dag V E) : List Defect :=
  graph.vertexDefects ++ graph.edges.flatMap fun edge => graph.endDefects (Arc.link edge)

def validate (graph : Dag V E) : Except Fault Unit :=
  match graph.defects with
  | [] => graph.sort.map fun _ => ()
  | found => .error (.several (found.map .structural))

end Dag

/-- Validation of a graph which may be missing. -/
def validate? {V E : Type} [Node V] [Arc E] : Option (Dag V E) → Except Fault Unit
  | none => .error (.structural .missingGraph)
  | some graph => graph.validate

end Flowplan
