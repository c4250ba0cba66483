import Flowplan.Plan.Stage

/-!
# Physical plans

A plan is a graph of stages, together with the vertex every task stands for and the stage
every vertex was assigned to.
-/

namespace Flowplan

/-- A physical plan. -/
structure Plan where
  id : String
  stageGraph : StageGraph
  /-- The vertex of each task, by the id of the task. -/
  taskVertices : List (String × Vertex)
  /-- The stage of each vertex, by ids. -/
  assignments : List (String × String)

namespace Plan

def size (plan : Plan) : Nat :=
  plan.stageGraph.size

/-- The stages in topological order. -/
def stages (plan : Plan) : List Stage :=
  plan.stageGraph.topological

def stage? (plan : Plan) (id : String) : Option Stage :=
  plan.stageGraph.vertex? id

/-- The stage a vertex was assigned to. -/
def stageOf? (plan : Plan) (vertex : String) : Option Stage :=
  (plan.assignments.lookup vertex).bind plan.stage?

/-- The vertex a task stands for, as it was when the plan was made. -/
def taskVertex? (plan : Plan) (task : String) : Option Vertex :=
  plan.taskVertices.lookup task

/-- The tasks with their vertices, ordered by the ids of the tasks. -/
def sortedTasks (plan : Plan) : List (String × Vertex) :=
  plan.taskVertices.mergeSort fun left right => decide (left.1 ≤ right.1)

/-- The plan as text: its id, then its stages and its stage edges, one per line. -/
def text (plan : Plan) : String :=
  "plan " ++ plan.id ++ "\n" ++
    String.join (plan.stages.map fun stage => "  " ++ stage.label ++ "\n") ++
    String.join (plan.stageGraph.edges.map fun edge => "  " ++ edge.label ++ "\n")

end Plan

end Flowplan
